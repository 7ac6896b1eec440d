import DumbDistributedLog.Cluster.LeaseCalls
import DumbDistributedLog.Config.Nodes
import DumbDistributedLog.Library.TextLines

/-! # The client protocol of a node

A client sends commands in lines of text and gets one answer to each, until it quits or its lines
can no longer be read. A line is a call of the cluster node exactly if its words are those of a
command, and every other line leaves the node alone. Answers are single lines, except for the help,
so a client can tell which command an answer belongs to.
-/

namespace DumbDistributedLog.ClientApi

open TextLines Words

structure ClusterNode (σ : Type*) where
  claimTopic : String → σ → Except String Unit × σ
  releaseTopic : String → σ → Except String Unit × σ
  getOwner : String → σ → Except String (Option NodeId) × σ
  acquireLease : String → UInt64 → σ → Except String LeaseInfo × σ
  releaseLease : String → σ → Except String Unit × σ

/-- What is sent back, the node after it, and whether the connection is kept. -/
structure Reply (σ : Type*) where
  text : String
  state : σ
  more : Bool

def welcome : String := "DDL Node Ready. Type HELP for commands.\n"

def helpText : String :=
  "Commands:\nCLAIM <topic> - Claim topic ownership\nRELEASE <topic> - Release topic ownership\n" ++
  "GET_OWNER <topic> - Get topic owner\n" ++
  "ACQUIRE_LEASE <resource> <ttl_sec> - Acquire lease\n" ++
  "RELEASE_LEASE <resource> - Release lease\n" ++
  "PING - Health check\nHELP - Show this help\nQUIT - Close connection\n"

def unitText : Except String Unit → String
  | .ok () => "OK\n"
  | .error e => s!"ERROR: {e}\n"

def ownerText : Except String (Option NodeId) → String
  | .ok (some owner) => s!"OK {owner}\n"
  | .ok none => "OK NONE\n"
  | .error e => s!"ERROR: {e}\n"

def leaseText : Except String LeaseInfo → String
  | .ok lease => s!"OK {lease.owner} {lease.expiresAt}\n"
  | .error e => s!"ERROR: {e}\n"

section Server

variable {σ : Type*} (node : ClusterNode σ)

def withArgument (usage : String) (call : String → σ → String × σ) (parts : List String) (s : σ) :
    Reply σ :=
  match parts with
  | [_, argument] => ⟨(call argument s).1, (call argument s).2, true⟩
  | _ => ⟨s!"ERROR: USAGE: {usage}\n", s, true⟩

def claim (topic : String) (s : σ) : String × σ :=
  (unitText (node.claimTopic topic s).1, (node.claimTopic topic s).2)

def release (topic : String) (s : σ) : String × σ :=
  (unitText (node.releaseTopic topic s).1, (node.releaseTopic topic s).2)

def getOwner (topic : String) (s : σ) : String × σ :=
  (ownerText (node.getOwner topic s).1, (node.getOwner topic s).2)

def acquireLease (resource : String) (ttl : UInt64) (s : σ) : String × σ :=
  (leaseText (node.acquireLease resource ttl s).1, (node.acquireLease resource ttl s).2)

def releaseLease (resource : String) (s : σ) : String × σ :=
  (unitText (node.releaseLease resource s).1, (node.releaseLease resource s).2)

/-- A time to live that is no number counts as none. -/
def withTtl (parts : List String) (s : σ) : Reply σ :=
  match parts with
  | [_, resource, ttlText] =>
    if (parseU64 ttlText).getD 0 = 0 then ⟨"ERROR: TTL must be > 0\n", s, true⟩
    else
      ⟨(acquireLease node resource ((parseU64 ttlText).getD 0) s).1,
        (acquireLease node resource ((parseU64 ttlText).getD 0) s).2, true⟩
  | _ => ⟨"ERROR: USAGE: ACQUIRE_LEASE <resource> <ttl_sec>\n", s, true⟩

def respond (parts : List String) (s : σ) : Reply σ :=
  let command := parts.head?.getD ""
  if command = "CLAIM" then withArgument "CLAIM <topic>" (claim node) parts s
  else if command = "RELEASE" then withArgument "RELEASE <topic>" (release node) parts s
  else if command = "GET_OWNER" then withArgument "GET_OWNER <topic>" (getOwner node) parts s
  else if command = "ACQUIRE_LEASE" then withTtl node parts s
  else if command = "RELEASE_LEASE" then
    withArgument "RELEASE_LEASE <resource>" (releaseLease node) parts s
  else if command = "PING" then ⟨"PONG\n", s, true⟩
  else if command = "HELP" then ⟨helpText, s, true⟩
  else if command = "QUIT" then ⟨"Bye!\n", s, false⟩
  else ⟨s!"ERROR: Unknown command '{command}'. Type HELP for commands.\n", s, true⟩

def partsOf (line : List Char) : List String := (splitWhitespace (trim line)).map String.ofList

/-- What a connection has sent, how it ended, and the node after it. -/
structure Session (σ : Type*) where
  written : List String
  result : Except String Unit
  state : σ

/-- The loop over the lines of a connection. The next text that is written has the given number,
and a text that cannot be written ends the connection. -/
def serve (fault : ℕ → Option String) : ℕ → List (List Char) → σ → Session σ
  | _, [], s => ⟨[], .ok (), s⟩
  | number, line :: lines, s =>
    if trim line = [] then serve fault number lines s
    else
      match fault number with
      | some e => ⟨[], .error s!"Write error: {e}", (respond node (partsOf line) s).state⟩
      | none =>
        if (respond node (partsOf line) s).more then
          let later := serve fault (number + 1) lines (respond node (partsOf line) s).state
          { later with written := (respond node (partsOf line) s).text :: later.written }
        else
          ⟨[(respond node (partsOf line) s).text], .ok (), (respond node (partsOf line) s).state⟩

/-- A connection with the bytes that arrive on it. An error in reading ends it like the end of the
input. -/
def handleClient (fault : ℕ → Option String) (input : List UInt8) (broken : Bool) (s : σ) :
    Session σ :=
  match fault 0 with
  | some e => ⟨[], .error s!"Write error: {e}", s⟩
  | none =>
    let session := serve node fault 1 (lines input broken) s
    { session with written := welcome :: session.written }

end Server

inductive Command where
  | claim (topic : String)
  | release (topic : String)
  | getOwner (topic : String)
  | acquireLease (resource : String) (ttl : UInt64)
  | releaseLease (resource : String)
  | ping
  | help
  deriving DecidableEq, Repr

/-- The words that make up a command. What follows the words of `PING` and `HELP` is ignored. -/
def Command.Means (parts : List String) : Command → Prop
  | claim topic => parts = ["CLAIM", topic]
  | release topic => parts = ["RELEASE", topic]
  | getOwner topic => parts = ["GET_OWNER", topic]
  | acquireLease resource ttl => ttl ≠ 0 ∧ ∃ ttlText, parseU64 ttlText = some ttl ∧
      parts = ["ACQUIRE_LEASE", resource, ttlText]
  | releaseLease resource => parts = ["RELEASE_LEASE", resource]
  | ping => parts.head? = some "PING"
  | help => parts.head? = some "HELP"

/-- The words of a line are its runs of characters that are not white space. -/
def Spells (line : List Char) (parts : List String) : Prop :=
  MaximalRuns (fun c => !isWhitespace c) line (parts.map String.toList)

def Quits (line : List Char) : Prop := ∃ more, Spells line ("QUIT" :: more)

section Transcripts

variable {σ : Type*} {node : ClusterNode σ} {s s' : σ} {parts : List String} {line : List Char}

/-- A command is carried out by the call of the node that it asks for, and the answer is what the
call returned. -/
inductive Command.Carried (node : ClusterNode σ) : Command → σ → String → σ → Prop
  | claimed {s s' : σ} {topic : String} (h : node.claimTopic topic s = (.ok (), s')) :
      Carried node (.claim topic) s "OK\n" s'
  | claimFailed {s s' : σ} {topic e : String} (h : node.claimTopic topic s = (.error e, s')) :
      Carried node (.claim topic) s s!"ERROR: {e}\n" s'
  | released {s s' : σ} {topic : String} (h : node.releaseTopic topic s = (.ok (), s')) :
      Carried node (.release topic) s "OK\n" s'
  | releaseFailed {s s' : σ} {topic e : String} (h : node.releaseTopic topic s = (.error e, s')) :
      Carried node (.release topic) s s!"ERROR: {e}\n" s'
  | owned {s s' : σ} {topic : String} {owner : NodeId}
      (h : node.getOwner topic s = (.ok (some owner), s')) :
      Carried node (.getOwner topic) s s!"OK {owner}\n" s'
  | unowned {s s' : σ} {topic : String} (h : node.getOwner topic s = (.ok none, s')) :
      Carried node (.getOwner topic) s "OK NONE\n" s'
  | ownerFailed {s s' : σ} {topic e : String} (h : node.getOwner topic s = (.error e, s')) :
      Carried node (.getOwner topic) s s!"ERROR: {e}\n" s'
  | leased {s s' : σ} {resource : String} {ttl : UInt64} {lease : LeaseInfo}
      (h : node.acquireLease resource ttl s = (.ok lease, s')) :
      Carried node (.acquireLease resource ttl) s s!"OK {lease.owner} {lease.expiresAt}\n" s'
  | leaseFailed {s s' : σ} {resource e : String} {ttl : UInt64}
      (h : node.acquireLease resource ttl s = (.error e, s')) :
      Carried node (.acquireLease resource ttl) s s!"ERROR: {e}\n" s'
  | leaseReleased {s s' : σ} {resource : String} (h : node.releaseLease resource s = (.ok (), s')) :
      Carried node (.releaseLease resource) s "OK\n" s'
  | leaseReleaseFailed {s s' : σ} {resource e : String}
      (h : node.releaseLease resource s = (.error e, s')) :
      Carried node (.releaseLease resource) s s!"ERROR: {e}\n" s'
  | ping {s : σ} : Carried node .ping s "PONG\n" s
  | help {s : σ} : Carried node .help s helpText s

/-- The answers that lines get and the node they leave: a blank line gets none, a command is
carried out, the line that quits is the last one, and any other line is refused with an error
while the node stays as it is. -/
inductive Transcript (node : ClusterNode σ) : List (List Char) → σ → List String → σ → Prop
  | nil {s : σ} : Transcript node [] s [] s
  | blank {line : List Char} {lines : List (List Char)} {s s' : σ} {answers : List String}
      (hline : Spells line []) (h : Transcript node lines s answers s') :
      Transcript node (line :: lines) s answers s'
  | command {line : List Char} {lines : List (List Char)} {s s' : σ} {answers : List String}
      {parts : List String} {c : Command} {text : String} {next : σ} (hline : Spells line parts)
      (hmeans : c.Means parts) (hcarried : c.Carried node s text next)
      (h : Transcript node lines next answers s') :
      Transcript node (line :: lines) s (text :: answers) s'
  | refused {line : List Char} {lines : List (List Char)} {s s' : σ} {answers : List String}
      {parts : List String} (reason : String) (hline : Spells line parts) (hne : parts ≠ [])
      (hmeans : ∀ c : Command, ¬ c.Means parts) (hquit : parts.head? ≠ some "QUIT")
      (h : Transcript node lines s answers s') :
      Transcript node (line :: lines) s (s!"ERROR: {reason}\n" :: answers) s'
  | quit {line : List Char} {s : σ} {more : List String} (hline : Spells line ("QUIT" :: more)) :
      Transcript node [line] s ["Bye!\n"] s

theorem spells_iff : Spells line parts ↔ partsOf line = parts := by
  rw [Spells, maximalRuns_iff, partsOf, splitWhitespace_trim, splitWhitespace]
  constructor
  · intro h
    rw [← h, List.map_map]
    simp
  · rintro rfl
    rw [List.map_map]
    simp

theorem trim_eq_nil_iff : trim line = [] ↔ Spells line [] := by
  rw [spells_iff, partsOf, List.map_eq_nil_iff, splitWhitespace_trim, trim_eq_nil]

/-- What `respond` makes of the words of a line: a command, the end, or an error. -/
inductive Outcome (node : ClusterNode σ) (parts : List String) (s : σ) : Reply σ → Prop
  | command {c : Command} {text : String} {next : σ} (hmeans : c.Means parts)
      (hcarried : c.Carried node s text next) : Outcome node parts s ⟨text, next, true⟩
  | quit {more : List String} (hparts : parts = "QUIT" :: more) :
      Outcome node parts s ⟨"Bye!\n", s, false⟩
  | refused (reason : String) (hmeans : ∀ c : Command, ¬ c.Means parts)
      (hquit : parts.head? ≠ some "QUIT")
      (hreason : '\n' ∉ (parts.head?.getD "").toList → '\n' ∉ reason.toList) :
      Outcome node parts s ⟨s!"ERROR: {reason}\n", s, true⟩

theorem carried_claim (topic : String) :
    Command.Carried node (.claim topic) s (claim node topic s).1 (claim node topic s).2 := by
  rcases h : node.claimTopic topic s with ⟨e | _, next⟩ <;> rw [claim, h]
  · exact .claimFailed h
  · exact .claimed h

theorem carried_release (topic : String) :
    Command.Carried node (.release topic) s (release node topic s).1 (release node topic s).2 := by
  rcases h : node.releaseTopic topic s with ⟨e | _, next⟩ <;> rw [release, h]
  · exact .releaseFailed h
  · exact .released h

theorem carried_getOwner (topic : String) :
    Command.Carried node (.getOwner topic) s (getOwner node topic s).1
      (getOwner node topic s).2 := by
  rcases h : node.getOwner topic s with ⟨e | _ | owner, next⟩ <;> rw [getOwner, h]
  · exact .ownerFailed h
  · exact .unowned h
  · exact .owned h

theorem carried_acquireLease (resource : String) (ttl : UInt64) :
    Command.Carried node (.acquireLease resource ttl) s (acquireLease node resource ttl s).1
      (acquireLease node resource ttl s).2 := by
  rcases h : node.acquireLease resource ttl s with ⟨e | lease, next⟩ <;> rw [acquireLease, h]
  · exact .leaseFailed h
  · exact .leased h

theorem carried_releaseLease (resource : String) :
    Command.Carried node (.releaseLease resource) s (releaseLease node resource s).1
      (releaseLease node resource s).2 := by
  rcases h : node.releaseLease resource s with ⟨e | _, next⟩ <;> rw [releaseLease, h]
  · exact .leaseReleaseFailed h
  · exact .leaseReleased h

theorem Outcome.ite {p : Prop} [Decidable p] {a b : Reply σ} (ha : p → Outcome node parts s a)
    (hb : ¬ p → Outcome node parts s b) : Outcome node parts s (if p then a else b) := by
  split_ifs with h
  · exact ha h
  · exact hb h

theorem outcome_withArgument (command : String → Command) {name usage : String}
    {args : List String} {call : String → σ → String × σ}
    (hcall : ∀ argument,
      (command argument).Carried node s (call argument s).1 (call argument s).2)
    (hmeans : ∀ c : Command, c.Means (name :: args) ↔
      ∃ argument, args = [argument] ∧ c = command argument)
    (hquit : name ≠ "QUIT") (husage : '\n' ∉ usage.toList) :
    Outcome node (name :: args) s (withArgument usage call (name :: args) s) := by
  have hreason : '\n' ∉ ("USAGE: " ++ usage).toList := by simpa using husage
  match args with
  | [argument] =>
    have hc : (command argument).Means (name :: [argument]) := (hmeans _).mpr ⟨argument, rfl, rfl⟩
    exact .command hc (hcall argument)
  | [] =>
    refine .refused ("USAGE: " ++ usage) (fun c hc => ?_) (by simpa using hquit) fun _ => hreason
    obtain ⟨argument, hargs, -⟩ := (hmeans c).mp hc
    cases hargs
  | _ :: _ :: _ =>
    refine .refused ("USAGE: " ++ usage) (fun c hc => ?_) (by simpa using hquit) fun _ => hreason
    obtain ⟨argument, hargs, -⟩ := (hmeans c).mp hc
    cases hargs

theorem outcome_withTtl {args : List String} (s : σ) :
    Outcome node ("ACQUIRE_LEASE" :: args) s (withTtl node ("ACQUIRE_LEASE" :: args) s) := by
  have hmeans : ∀ c : Command, c.Means ("ACQUIRE_LEASE" :: args) → ∃ resource ttlText ttl,
      args = [resource, ttlText] ∧ parseU64 ttlText = some ttl ∧ ttl ≠ 0 := by
    intro c hc
    cases c with
    | acquireLease resource ttl =>
      obtain ⟨hpos, ttlText, hparse, hparts⟩ := hc
      exact ⟨resource, ttlText, ttl, (List.cons.inj hparts).2, hparse, hpos⟩
    | _ => simp [Command.Means] at hc
  match args with
  | [resource, ttlText] =>
    by_cases hzero : (parseU64 ttlText).getD 0 = 0
    · rw [withTtl, if_pos hzero]
      refine .refused "TTL must be > 0" (fun c hc => ?_) (by simp) fun _ => by decide
      obtain ⟨_, _, ttl, hargs, hparse, hpos⟩ := hmeans c hc
      cases hargs
      rw [hparse] at hzero
      exact hpos hzero
    · obtain ⟨ttl, hparse⟩ : ∃ ttl, parseU64 ttlText = some ttl := by
        cases h : parseU64 ttlText with
        | none => rw [h] at hzero; exact absurd rfl hzero
        | some ttl => exact ⟨ttl, rfl⟩
      rw [hparse] at hzero
      rw [withTtl, hparse, if_neg hzero]
      have hc : (Command.acquireLease resource ttl).Means ["ACQUIRE_LEASE", resource, ttlText] :=
        ⟨hzero, ttlText, hparse, rfl⟩
      exact .command hc (carried_acquireLease resource ttl)
  | [] | [_] | _ :: _ :: _ :: _ =>
    refine .refused "USAGE: ACQUIRE_LEASE <resource> <ttl_sec>" (fun c hc => ?_) (by simp)
      fun _ => by decide
    obtain ⟨_, _, _, hargs, -⟩ := hmeans c hc
    cases hargs

theorem outcome_respond (hne : parts ≠ []) (s : σ) :
    Outcome node parts s (respond node parts s) := by
  obtain ⟨name, args, rfl⟩ := List.exists_cons_of_ne_nil hne
  rw [respond]
  refine .ite ?_ fun _ => .ite ?_ fun _ => .ite ?_ fun _ => .ite ?_ fun _ => .ite ?_ fun _ =>
    .ite ?_ fun _ => .ite ?_ fun _ => .ite ?_ ?_
  · rintro rfl
    exact outcome_withArgument .claim carried_claim
      (fun c => by cases c <;> simp [Command.Means]) (by decide) (by decide)
  · rintro rfl
    exact outcome_withArgument .release carried_release
      (fun c => by cases c <;> simp [Command.Means]) (by decide) (by decide)
  · rintro rfl
    exact outcome_withArgument .getOwner carried_getOwner
      (fun c => by cases c <;> simp [Command.Means]) (by decide) (by decide)
  · rintro rfl
    exact outcome_withTtl s
  · rintro rfl
    exact outcome_withArgument .releaseLease carried_releaseLease
      (fun c => by cases c <;> simp [Command.Means]) (by decide) (by decide)
  · rintro rfl
    have hmeans : Command.ping.Means ("PING" :: args) := rfl
    exact .command hmeans .ping
  · rintro rfl
    have hmeans : Command.help.Means ("HELP" :: args) := rfl
    exact .command hmeans .help
  · rintro rfl
    exact .quit rfl
  · intro hquit
    have hhead : (name :: args).head? ≠ some "QUIT" := by simpa using hquit
    have hmeans : ∀ c : Command, ¬ c.Means (name :: args) := by
      intro c
      cases c <;> simp_all [Command.Means]
    have htext : s!"ERROR: Unknown command '{name}'. Type HELP for commands.\n" =
        "ERROR: " ++ ("Unknown command '" ++ name ++ "'. Type HELP for commands.") ++ "\n" := by
      simp only [String.append_assoc]
      rfl
    rw [List.head?_cons, Option.getD_some, htext]
    exact .refused ("Unknown command '" ++ name ++ "'. Type HELP for commands.") hmeans hhead
      fun hname => by simpa using hname

variable {fault : ℕ → Option String} {number : ℕ} {lines : List (List Char)}

theorem serve_blank (hline : Spells line []) :
    serve node fault number (line :: lines) s = serve node fault number lines s := by
  rw [serve, if_pos (trim_eq_nil_iff.mpr hline)]

theorem serve_fault {e : String} (hline : ¬ Spells line []) (hfault : fault number = some e) :
    serve node fault number (line :: lines) s =
      ⟨[], .error s!"Write error: {e}", (respond node (partsOf line) s).state⟩ := by
  rw [serve, if_neg (mt trim_eq_nil_iff.mp hline)]
  simp only [hfault]

theorem serve_more (hline : ¬ Spells line []) (hfault : fault number = none)
    (hmore : (respond node (partsOf line) s).more = true) :
    serve node fault number (line :: lines) s =
      { serve node fault (number + 1) lines (respond node (partsOf line) s).state with
        written := (respond node (partsOf line) s).text ::
          (serve node fault (number + 1) lines
            (respond node (partsOf line) s).state).written } := by
  rw [serve, if_neg (mt trim_eq_nil_iff.mp hline)]
  simp only [hfault, if_pos hmore]

theorem serve_last (hline : ¬ Spells line []) (hfault : fault number = none)
    (hmore : (respond node (partsOf line) s).more = false) :
    serve node fault number (line :: lines) s =
      ⟨[(respond node (partsOf line) s).text], .ok (), (respond node (partsOf line) s).state⟩ := by
  rw [serve, if_neg (mt trim_eq_nil_iff.mp hline)]
  simp only [hfault, hmore, Bool.false_eq_true, if_false]

theorem Transcript.cons (hline : ¬ Spells line []) {answers : List String}
    (h : Transcript node lines (respond node (partsOf line) s).state answers s')
    (hmore : (respond node (partsOf line) s).more = true) :
    Transcript node (line :: lines) s ((respond node (partsOf line) s).text :: answers) s' := by
  have hspells : Spells line (partsOf line) := spells_iff.mpr rfl
  have hne : partsOf line ≠ [] := mt spells_iff.mpr hline
  have houtcome : Outcome node (partsOf line) s _ := outcome_respond hne s
  generalize respond node (partsOf line) s = reply at h hmore houtcome ⊢
  cases houtcome with
  | command hmeans hcarried => exact .command hspells hmeans hcarried h
  | quit => cases hmore
  | refused reason hmeans hquit => exact .refused reason hspells hne hmeans hquit h

theorem Transcript.last (hline : ¬ Spells line [])
    (hmore : (respond node (partsOf line) s).more = false) :
    Transcript node [line] s [(respond node (partsOf line) s).text]
      (respond node (partsOf line) s).state ∧ Quits line := by
  have hspells : Spells line (partsOf line) := spells_iff.mpr rfl
  have hne : partsOf line ≠ [] := mt spells_iff.mpr hline
  have houtcome : Outcome node (partsOf line) s _ := outcome_respond hne s
  generalize respond node (partsOf line) s = reply at hmore houtcome ⊢
  cases houtcome with
  | command => cases hmore
  | @quit more hparts => exact ⟨.quit (hparts ▸ hspells), more, hparts ▸ hspells⟩
  | refused => cases hmore

theorem ends_cons (line : List Char) {answered : List (List Char)}
    (h : answered = lines ∨ ∃ last ∈ answered.getLast?, Quits last) :
    line :: answered = line :: lines ∨ ∃ last ∈ (line :: answered).getLast?, Quits last := by
  rcases h with rfl | ⟨last, hlast, hquits⟩
  · exact .inl rfl
  · refine .inr ⟨last, ?_, hquits⟩
    rw [List.getLast?_cons, Option.mem_def.mp hlast]
    rfl

theorem transcript_serve (node : ClusterNode σ) (fault : ℕ → Option String) (number : ℕ)
    (lines : List (List Char)) (s : σ) :
    ∃ answered answers, answered <+: lines ∧
      Transcript node answered s answers (serve node fault number lines s).state ∧
      (serve node fault number lines s).written <+: answers ∧
      ((∀ n, fault n = none) → (answered = lines ∨ ∃ line ∈ answered.getLast?, Quits line) ∧
        (serve node fault number lines s).written = answers ∧
        (serve node fault number lines s).result = .ok ()) := by
  induction lines generalizing number s with
  | nil =>
    exact ⟨[], [], List.nil_prefix, .nil, List.nil_prefix, fun _ => ⟨.inl rfl, rfl, rfl⟩⟩
  | cons line lines ih =>
    by_cases hline : Spells line []
    · obtain ⟨answered, answers, hpre, htrans, hwritten, hall⟩ := ih number s
      rw [serve_blank hline]
      refine ⟨line :: answered, answers, (List.prefix_cons_inj line).mpr hpre,
        .blank hline htrans, hwritten, fun hnone => ?_⟩
      exact (hall hnone).imp_left (ends_cons line)
    · match hfault : fault number with
      | some e =>
        rw [serve_fault hline hfault]
        cases hmore : (respond node (partsOf line) s).more with
        | true =>
          refine ⟨[line], [(respond node (partsOf line) s).text], by simp,
            .cons hline .nil hmore, List.nil_prefix, fun hnone => ?_⟩
          rw [hnone] at hfault
          cases hfault
        | false =>
          refine ⟨[line], [(respond node (partsOf line) s).text], by simp,
            (Transcript.last hline hmore).1, List.nil_prefix, fun hnone => ?_⟩
          rw [hnone] at hfault
          cases hfault
      | none =>
        cases hmore : (respond node (partsOf line) s).more with
        | true =>
          obtain ⟨answered, answers, hpre, htrans, hwritten, hall⟩ :=
            ih (number + 1) (respond node (partsOf line) s).state
          rw [serve_more hline hfault hmore]
          refine ⟨line :: answered, (respond node (partsOf line) s).text :: answers,
            (List.prefix_cons_inj line).mpr hpre, .cons hline htrans hmore,
            (List.prefix_cons_inj _).mpr hwritten, fun hnone => ?_⟩
          obtain ⟨hends, hans, hres⟩ := hall hnone
          exact ⟨ends_cons line hends, by rw [hans], hres⟩
        | false =>
          obtain ⟨htrans, hquits⟩ := Transcript.last hline hmore
          rw [serve_last hline hfault hmore]
          exact ⟨[line], [(respond node (partsOf line) s).text], by simp, htrans,
            List.prefix_refl _, fun _ => ⟨.inr ⟨line, rfl, hquits⟩, rfl, rfl⟩⟩

/-- Every connection is a transcript of the first of its lines: what reaches the cluster node is
exactly what the commands among them call for. Without an error in writing these are all lines that
can be read, or those up to the first one that quits. If an answer cannot be written the connection
ends there, with the command of that answer as the last one. -/
theorem session_transcript (node : ClusterNode σ) (fault : ℕ → Option String) (input : List UInt8)
    (broken : Bool) (s : σ) :
    let session := handleClient node fault input broken s
    ∃ answered answers, answered <+: TextLines.lines input broken ∧
      Transcript node answered s answers session.state ∧
      session.written <+: welcome :: answers ∧
      ((∀ n, fault n = none) →
        (answered = TextLines.lines input broken ∨ ∃ line ∈ answered.getLast?, Quits line) ∧
        session.written = welcome :: answers ∧ session.result = .ok ()) := by
  intro session
  match hfault : fault 0 with
  | some e =>
    simp only [session, handleClient, hfault]
    refine ⟨[], [], List.nil_prefix, .nil, List.nil_prefix, fun hnone => ?_⟩
    rw [hnone] at hfault
    cases hfault
  | none =>
    obtain ⟨answered, answers, hpre, htrans, hwritten, hall⟩ :=
      transcript_serve node fault 1 (TextLines.lines input broken) s
    simp only [session, handleClient, hfault]
    refine ⟨answered, answers, hpre, htrans, (List.prefix_cons_inj _).mpr hwritten,
      fun hnone => ?_⟩
    obtain ⟨hends, hans, hres⟩ := hall hnone
    exact ⟨hends, by rw [hans], hres⟩

end Transcripts

section Answers

variable {σ : Type*} {node : ClusterNode σ} {s : σ}

def OneLine (text : String) : Prop := ∃ line, '\n' ∉ line ∧ text.toList = line ++ ['\n']

/-- The node's errors have no line ends in them. -/
structure Terse (node : ClusterNode σ) : Prop where
  claimTopic : ∀ topic s e, (node.claimTopic topic s).1 = .error e → '\n' ∉ e.toList
  releaseTopic : ∀ topic s e, (node.releaseTopic topic s).1 = .error e → '\n' ∉ e.toList
  getOwner : ∀ topic s e, (node.getOwner topic s).1 = .error e → '\n' ∉ e.toList
  acquireLease : ∀ resource ttl s e, (node.acquireLease resource ttl s).1 = .error e →
    '\n' ∉ e.toList
  releaseLease : ∀ resource s e, (node.releaseLease resource s).1 = .error e → '\n' ∉ e.toList

theorem oneLine_append (text : String) (h : '\n' ∉ text.toList) : OneLine (text ++ "\n") :=
  ⟨text.toList, h, by simp⟩

theorem newline_not_mem_toString (n : UInt64) : '\n' ∉ (toString n).toList := by
  intro hmem
  exact absurd (Decimals.isDigit_of_mem_repr hmem) (by decide)

theorem oneLine_error {e : String} (h : '\n' ∉ e.toList) : OneLine s!"ERROR: {e}\n" :=
  oneLine_append _ (by simpa [toString] using h)

theorem oneLine_carried (hnode : Terse node) {c : Command} {text : String} {s' : σ}
    (h : c.Carried node s text s') : c = .help ∧ text = helpText ∨ OneLine text := by
  cases h with
  | claimFailed h => exact .inr (oneLine_error (hnode.claimTopic _ s _ (by rw [h])))
  | releaseFailed h => exact .inr (oneLine_error (hnode.releaseTopic _ s _ (by rw [h])))
  | ownerFailed h => exact .inr (oneLine_error (hnode.getOwner _ s _ (by rw [h])))
  | leaseFailed h => exact .inr (oneLine_error (hnode.acquireLease _ _ s _ (by rw [h])))
  | leaseReleaseFailed h => exact .inr (oneLine_error (hnode.releaseLease _ s _ (by rw [h])))
  | claimed | released | leaseReleased => exact .inr (oneLine_append "OK" (by decide))
  | @owned _ _ _ owner _ =>
    exact .inr (oneLine_append _ (by simpa [toString] using newline_not_mem_toString owner))
  | unowned => exact .inr (oneLine_append "OK NONE" (by decide))
  | @leased _ _ _ _ lease _ =>
    have howner := newline_not_mem_toString lease.owner
    have hexpires := newline_not_mem_toString lease.expiresAt
    refine .inr (oneLine_append _ ?_)
    simp only [String.toList_append, List.mem_append, not_or]
    exact ⟨⟨⟨by decide, howner⟩, by decide⟩, hexpires⟩
  | ping => exact .inr (oneLine_append "PONG" (by decide))
  | help => exact .inl ⟨rfl, rfl⟩

theorem newline_not_mem_partsOf (line : List Char) :
    '\n' ∉ ((partsOf line).head?.getD "").toList := by
  cases hparts : (splitWhitespace (trim line)) with
  | nil => simp [partsOf, hparts]
  | cons word words =>
    have hword := (of_mem_splitWhitespace (hparts ▸ List.mem_cons_self)).2
    simp only [partsOf, hparts, List.map_cons, List.head?_cons, Option.getD_some,
      String.toList_ofList]
    intro hmem
    cases (hword '\n' hmem).symm.trans isWhitespace_newline

def AsksHelp (line : List Char) : Prop := ∃ more, Spells line ("HELP" :: more)

theorem oneLine_respond (hnode : Terse node) {line : List Char} (hline : ¬ Spells line []) (s : σ) :
    AsksHelp line ∧ (respond node (partsOf line) s).text = helpText ∨
      OneLine (respond node (partsOf line) s).text := by
  have hname := newline_not_mem_partsOf line
  have houtcome : Outcome node (partsOf line) s _ := outcome_respond (mt spells_iff.mpr hline) s
  generalize respond node (partsOf line) s = reply at houtcome ⊢
  cases houtcome with
  | command hmeans hcarried =>
    refine (oneLine_carried hnode hcarried).imp_left ?_
    rintro ⟨rfl, rfl⟩
    obtain ⟨more, hmore⟩ := List.head?_eq_some_iff.mp hmeans
    exact ⟨⟨more, spells_iff.mpr hmore⟩, rfl⟩
  | quit => exact .inr (oneLine_append "Bye!" (by decide))
  | refused reason _ _ hreason => exact .inr (oneLine_error (hreason hname))

theorem oneLine_serve (hnode : Terse node) (fault : ℕ → Option String) (number : ℕ)
    (lines : List (List Char)) (s : σ) :
    ∀ text ∈ (serve node fault number lines s).written,
      (∃ line ∈ lines, AsksHelp line) ∧ text = helpText ∨ OneLine text := by
  induction lines generalizing number s with
  | nil => simp [serve]
  | cons line lines ih =>
    have hrest : ∀ number s, ∀ text ∈ (serve node fault number lines s).written,
        (∃ asked ∈ line :: lines, AsksHelp asked) ∧ text = helpText ∨ OneLine text := by
      intro number s text htext
      refine (ih number s text htext).imp_left ?_
      rintro ⟨⟨asked, hasked, hhelp⟩, htext⟩
      exact ⟨⟨asked, List.mem_cons_of_mem _ hasked, hhelp⟩, htext⟩
    by_cases hline : Spells line []
    · rw [serve_blank hline]
      exact hrest number s
    · have hfirst : (∃ asked ∈ line :: lines, AsksHelp asked) ∧
          (respond node (partsOf line) s).text = helpText ∨
            OneLine (respond node (partsOf line) s).text :=
        (oneLine_respond hnode hline s).imp_left
          fun ⟨hhelp, htext⟩ => ⟨⟨line, List.mem_cons_self, hhelp⟩, htext⟩
      match hfault : fault number with
      | some e =>
        rw [serve_fault hline hfault]
        simp
      | none =>
        cases hmore : (respond node (partsOf line) s).more with
        | true =>
          rw [serve_more hline hfault hmore]
          intro text htext
          rcases List.mem_cons.mp htext with rfl | hmem
          · exact hfirst
          · exact hrest _ _ text hmem
        | false =>
          rw [serve_last hline hfault hmore]
          intro text htext
          obtain rfl := List.mem_singleton.mp htext
          exact hfirst

theorem not_oneLine_helpText : ¬ OneLine helpText := by
  rintro ⟨line, hline, htext⟩
  have hcount := congrArg (List.count '\n') htext
  rw [List.count_append, List.count_eq_zero.mpr hline] at hcount
  exact absurd hcount (by decide +kernel)

theorem eq_of_flatMap_eq {texts texts' : List String} (h : ∀ text ∈ texts, OneLine text)
    (h' : ∀ text ∈ texts', OneLine text)
    (heq : texts.flatMap String.toList = texts'.flatMap String.toList) : texts = texts' := by
  induction texts generalizing texts' with
  | nil =>
    cases texts' with
    | nil => rfl
    | cons text texts' =>
      obtain ⟨line, -, htext⟩ := h' text List.mem_cons_self
      simp [htext] at heq
  | cons text texts ih =>
    obtain ⟨line, hline, htext⟩ := h text List.mem_cons_self
    cases texts' with
    | nil => simp [htext] at heq
    | cons text' texts' =>
      obtain ⟨line', hline', htext'⟩ := h' text' List.mem_cons_self
      have hsplit : Separators.splitFirst '\n' (line ++ '\n' :: texts.flatMap String.toList) =
          Separators.splitFirst '\n' (line' ++ '\n' :: texts'.flatMap String.toList) := by
        simpa [htext, htext'] using congrArg (Separators.splitFirst '\n') heq
      rw [Separators.splitFirst_append hline, Separators.splitFirst_append hline'] at hsplit
      simp only [Option.some.injEq, Prod.mk.injEq] at hsplit
      obtain ⟨rfl, hrest⟩ := hsplit
      have hhead : text = text' := String.toList_inj.mp (htext.trans htext'.symm)
      rw [hhead, ih (fun t ht => h t (List.mem_cons_of_mem _ ht))
        (fun t ht => h' t (List.mem_cons_of_mem _ ht)) hrest]

/-- Every answer but the help is a line of its own, whatever a client sends, and the help comes only
if a line asks for it. So a client that asks for no help finds the answers in what it receives, in
only one way. -/
theorem answers_one_line (node : ClusterNode σ) (hnode : Terse node) (fault : ℕ → Option String)
    (input : List UInt8) (broken : Bool) (s : σ) :
    let written := (handleClient node fault input broken s).written
    (∀ text ∈ written, text = helpText ∨ OneLine text) ∧
    ((∀ line ∈ TextLines.lines input broken, ¬ AsksHelp line) → helpText ∉ written) ∧
    (helpText ∉ written → ∀ texts : List String, (∀ text ∈ texts, OneLine text) →
      texts.flatMap String.toList = written.flatMap String.toList → texts = written) := by
  intro written
  have hlines : ∀ text ∈ written,
      (∃ line ∈ TextLines.lines input broken, AsksHelp line) ∧ text = helpText ∨ OneLine text := by
    intro text htext
    match hfault : fault 0 with
    | some e => simp [written, handleClient, hfault] at htext
    | none =>
      simp only [written, handleClient, hfault, List.mem_cons] at htext
      rcases htext with rfl | hmem
      · exact .inr (oneLine_append "DDL Node Ready. Type HELP for commands." (by decide))
      · exact oneLine_serve hnode fault 1 _ s text hmem
  refine ⟨fun text htext => (hlines text htext).imp_left And.right, fun hhelp hmem => ?_,
    fun hhelp texts htexts heq => eq_of_flatMap_eq htexts (fun text htext => ?_) heq⟩
  · obtain ⟨line, hline, hasks⟩ := ((hlines _ hmem).resolve_right not_oneLine_helpText).1
    exact hhelp line hline hasks
  · refine (hlines text htext).resolve_left ?_
    rintro ⟨-, rfl⟩
    exact hhelp htext

/-- A node that is alone in its cluster, so that its proposals are committed at once. -/
def soleNode (nodeId : NodeId) (now : UInt64) : ClusterNode OwnershipState where
  claimTopic topic s := (.ok (), s.apply (.claimTopic topic nodeId now))
  releaseTopic topic s := (.ok (), s.apply (.releaseTopic topic nodeId))
  getOwner topic s := (.ok (s.getOwner topic), s)
  acquireLease key ttl s :=
    (AcquireCall.acquireLease ⟨nodeId, key, ttl, now, [], []⟩ s (.ok ()),
      AcquireCall.atRead ⟨nodeId, key, ttl, now, [], []⟩ s)
  releaseLease key s := (.ok (), s.apply (.releaseLease key))

theorem answers_one_line_sole : Terse (soleNode 1 0) ∧
    ∀ text ∈ (handleClient (soleNode 1 0) (fun _ => none)
      (Utf8.encode "CLAIM t\r\n\n GET_OWNER t \nQUIT\n") false OwnershipState.new).written,
      text = helpText ∨ OneLine text := by
  have hnode : Terse (soleNode 1 0) := by
    refine ⟨?_, ?_, ?_, ?_, ?_⟩
    · rintro _ _ _ ⟨⟩
    · rintro _ _ _ ⟨⟩
    · rintro _ _ _ ⟨⟩
    · intro resource ttl s e he
      simp only [soleNode, AcquireCall.acquireLease] at he
      split at he
      · cases he
      · cases he
        simpa using newline_not_mem_toString _
    · rintro _ _ _ ⟨⟩
  exact ⟨hnode, (answers_one_line (soleNode 1 0) hnode _ _ _ _).1⟩

end Answers

end DumbDistributedLog.ClientApi
