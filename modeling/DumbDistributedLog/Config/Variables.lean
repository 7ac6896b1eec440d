import DumbDistributedLog.Library.Words

/-! # Variables of an expression

The scanner collects the characters of a name until another character ends it, and `true` and
`false` are left out there. A name that reaches the end of the expression is added after the loop,
where nothing is left out. So the variables are the words of the expression other than the two
constants, unless its last character ends one of these.
-/

namespace DumbDistributedLog

open Words

/-- The letters and digits of Unicode, of which those in ASCII are known. -/
structure Alphanumeric where
  isAlphanumeric : Char → Bool
  ascii : ∀ c : Char, c.toNat < 128 → isAlphanumeric c = c.isAlphanum

def Alphanumeric.ofAscii : Alphanumeric := ⟨Char.isAlphanum, fun _ _ => rfl⟩

def Alphanumeric.isName (u : Alphanumeric) (c : Char) : Bool := u.isAlphanumeric c || c == '_'

namespace SourceType

structure Scanner where
  vars : List String
  current : String
  inVar : Bool
  deriving DecidableEq, Repr

def isVariable (name : String) : Bool := name != "true" && name != "false"

namespace Scanner

variable (u : Alphanumeric) (s : Scanner)

def step (c : Char) : Scanner :=
  if u.isName c then { s with current := s.current.push c, inVar := true }
  else if s.inVar then
    { vars := if !s.current.isEmpty && isVariable s.current then s.vars ++ [s.current] else s.vars
      current := ""
      inVar := false }
  else s

/-- What is left at the end of the expression is not compared with the constants. -/
def finish : List String :=
  if s.inVar && !s.current.isEmpty then s.vars ++ [s.current] else s.vars

end Scanner

def extractVariables (u : Alphanumeric) (expr : String) : List String :=
  (expr.toList.foldl (Scanner.step u) ⟨[], "", false⟩).finish

/-- The names among words that are not constants. -/
def variablesOf (words : List (List Char)) : List String :=
  (words.map String.ofList).filter isVariable

/-- The longest name at the end of the expression is one of the constants. -/
def EndsInConstant (u : Alphanumeric) (expr : String) : Prop :=
  String.ofList (expr.toList.rtakeWhile u.isName) = "true" ∨
    String.ofList (expr.toList.rtakeWhile u.isName) = "false"

variable {u : Alphanumeric} {word cs : List Char} {c : Char} {vars : List String}

theorem isVariable_eq_false {name : String} :
    isVariable name = false ↔ name = "true" ∨ name = "false" := by
  rw [isVariable, Bool.and_eq_false_iff, bne_eq_false_iff_eq, bne_eq_false_iff_eq]

theorem variablesOf_append {ws ws' : List (List Char)} :
    variablesOf (ws ++ ws') = variablesOf ws ++ variablesOf ws' := by
  simp [variablesOf]

theorem variablesOf_single : variablesOf (single word) =
    if !(String.ofList word).isEmpty && isVariable (String.ofList word) then [String.ofList word]
    else [] := by
  cases word with
  | nil => rfl
  | cons c cs => simp [variablesOf, single, List.filter_singleton]

def Scanner.within (vars : List String) (word : List Char) : Scanner :=
  ⟨vars, String.ofList word, !word.isEmpty⟩

theorem Scanner.step_name (hc : u.isName c = true) :
    (within vars word).step u c = within vars (word ++ [c]) := by
  simp [within, step, hc, String.ofList_append]

theorem Scanner.step_other (hc : u.isName c = false) :
    (within vars word).step u c = within (vars ++ variablesOf (single word)) [] := by
  rw [variablesOf_single]
  cases word with
  | nil => simp [within, step, hc]
  | cons d word =>
    cases hvar : isVariable (String.ofList (d :: word)) <;>
      simp [within, step, hc, hvar, -String.ofList_cons]

theorem Scanner.foldl_step (hword : ∀ c ∈ word, u.isName c = true) :
    cs.foldl (step u) (within vars word) =
      within (vars ++ variablesOf (words u.isName ((word ++ cs).rdropWhile u.isName)))
        ((word ++ cs).rtakeWhile u.isName) := by
  induction cs generalizing vars word with
  | nil =>
    rw [List.foldl_nil, List.append_nil, List.rtakeWhile_eq_self_iff.mpr hword,
      List.rdropWhile_eq_nil_iff.mpr hword, words_nil]
    simp [variablesOf]
  | cons c cs ih =>
    rw [List.foldl_cons]
    cases hc : u.isName c with
    | true =>
      have hnext : ∀ d ∈ word ++ [c], u.isName d = true := by
        intro d hd
        rcases List.mem_append.mp hd with hd | hd
        · exact hword d hd
        · rw [List.mem_singleton.mp hd, hc]
      rw [step_name hc, ih hnext, List.append_assoc, List.singleton_append]
    | false =>
      rw [step_other hc, ih (by simp), List.nil_append, rtakeWhile_append_cons hc,
        rdropWhile_append_cons hc, words_append_cons hc, words_of_all hword, variablesOf_append,
        List.append_assoc]

theorem Scanner.finish_within :
    (within vars word).finish = vars ++ (single word).map String.ofList := by
  cases word with
  | nil => simp [within, finish, single]
  | cons c word => simp [within, finish, single]

theorem extractVariables_eq (u : Alphanumeric) (expr : String) : extractVariables u expr =
    variablesOf (words u.isName (expr.toList.rdropWhile u.isName)) ++
      (single (expr.toList.rtakeWhile u.isName)).map String.ofList := by
  have hloop : expr.toList.foldl (Scanner.step u) (.within [] []) = _ :=
    Scanner.foldl_step (by simp)
  rw [List.nil_append, List.nil_append] at hloop
  rw [extractVariables, ← Scanner.finish_within, ← hloop]
  rfl

theorem variablesOf_words (u : Alphanumeric) (expr : String) :
    variablesOf (words u.isName expr.toList) =
      variablesOf (words u.isName (expr.toList.rdropWhile u.isName)) ++
        variablesOf (single (expr.toList.rtakeWhile u.isName)) := by
  rw [words_eq_append, variablesOf_append]

theorem map_single_iff : (single word).map String.ofList = variablesOf (single word) ↔
    ¬ isVariable (String.ofList word) = false := by
  cases word with
  | nil => simp [single, variablesOf, isVariable]
  | cons c word =>
    cases hvar : isVariable (String.ofList (c :: word)) <;>
      simp [single, variablesOf, hvar, -String.ofList_cons]

theorem extractVariables_eq_iff (u : Alphanumeric) (expr : String) :
    extractVariables u expr = variablesOf (words u.isName expr.toList) ↔
      ¬ EndsInConstant u expr := by
  rw [extractVariables_eq, variablesOf_words, List.append_cancel_left_eq, map_single_iff,
    isVariable_eq_false]
  rfl

theorem extractVariables_append (hc : u.isName c = false) (a b : String) :
    extractVariables u (a ++ String.singleton c ++ b) =
      variablesOf (words u.isName a.toList) ++ extractVariables u b := by
  have hlist : (a ++ String.singleton c ++ b).toList = a.toList ++ c :: b.toList := by simp
  rw [extractVariables_eq, extractVariables_eq, hlist, rtakeWhile_append_cons hc,
    rdropWhile_append_cons hc, words_append_cons hc, variablesOf_append, List.append_assoc]

theorem isName_space : u.isName ' ' = false := by
  rw [Alphanumeric.isName, u.ascii ' ' (by decide)]
  decide

/-- The variables are the maximal runs other than the constants, a space at the end changes
nothing, and a separator makes two expressions of one, exactly if the expression before it does not
end in a constant. -/
theorem variables_extracted (u : Alphanumeric) (expr : String) :
    ((∃ runs, MaximalRuns u.isName expr.toList runs ∧ extractVariables u expr = variablesOf runs) ↔
      ¬ EndsInConstant u expr) ∧
    (extractVariables u expr = extractVariables u (expr ++ " ") ↔ ¬ EndsInConstant u expr) ∧
    ∀ (c : Char) (b : String), u.isName c = false →
      (extractVariables u (expr ++ String.singleton c ++ b) =
        extractVariables u expr ++ extractVariables u b ↔ ¬ EndsInConstant u expr) := by
  have hnil : extractVariables u "" = [] := rfl
  refine ⟨?_, ?_, ?_⟩
  · simp only [maximalRuns_iff, exists_eq_left]
    exact extractVariables_eq_iff u expr
  · have hspace : extractVariables u (expr ++ " ") = variablesOf (words u.isName expr.toList) := by
      have happend := extractVariables_append isName_space (u := u) expr ""
      rwa [String.append_empty, hnil, List.append_nil] at happend
    rw [hspace]
    exact extractVariables_eq_iff u expr
  · intro c b hc
    rw [extractVariables_append hc, List.append_cancel_right_eq, eq_comm]
    exact extractVariables_eq_iff u expr

/-- A constant on its own is taken for a variable, and with a space after it it is not. -/
theorem constant_extracted : extractVariables .ofAscii "true" = ["true"] ∧
    extractVariables .ofAscii "true " = [] ∧
    words Alphanumeric.ofAscii.isName "true".toList = ["true".toList] := by
  decide +kernel

end SourceType

end DumbDistributedLog
