/-
**The Lua console and its standard output.**

`luaServer` of libbacteria/lua/luaserv.c reopens `stdout` on a file for every command, and closes it with
`fclose(tmp)`, where `tmp` is `stdout`.

* `Console` — the streams, numbered as they are opened, and a log of their uses and closes.
* `accept`, `command`, `hangUp`, `step` — what the loops do; `reply` — what a command is answered.
* `Right` — no stream is used or closed after it was closed.
* `console_right_iff` — every run: it is right exactly as long as nothing happens after a command.
-/

import Bacteria.Lib.AllocLog
import Bacteria.Lib.Recv
import Bacteria.Lib.Runs
import Mathlib.Algebra.Order.Ring.Int

namespace Bacteria.Serv.LuaServer

open AllocLog Clib Runs

/-- `LUABUF`. -/
def luaBuf : Nat := 5012 * 2

/-- `MAXERRACCEPT`. -/
def maxErrAccept : Nat := 5

/-- How a chunk of Lua ended: with what it has printed, or with an error message. -/
inductive Ran where
  | printed (text : Bytes)
  | failed (message : CString)

/-- What is sent back out of `buf`, `none` when it has no place for a terminator. -/
def reply : Ran → Option Bytes
  | .printed text => if text.length < luaBuf then some (cstr text).bytes else none
  | .failed message => if message.strlen < luaBuf then some message.bytes else none

/-- Where the loops are. -/
inductive Mode where
  | accepting
  | talking
  | left
deriving DecidableEq

/-- The variables of `luaServer` and the streams. -/
structure Console where
  mode : Mode
  stdout : Nat
  streams : Nat
  errCount : Nat
  log : List (Event Nat Nat)
  sent : List (Option Bytes)

namespace Console

/-- When the loop starts; nothing has set `err_count`. -/
def start (garbage : Nat) : Console := ⟨.accepting, 0, 1, garbage, [], []⟩

/-- A stream is written, read, flushed or reopened. -/
def use (c : Console) (stream : Nat) : Console := { c with log := c.log ++ [.read stream] }

/-- `fclose`. -/
def close (c : Console) (stream : Nat) : Console := { c with log := c.log ++ [.free stream] }

/-- `fopen`, `fdopen`: the stream is the next one. -/
def opened (c : Console) : Console := { c with streams := c.streams + 1 }

def send (c : Console) (text : Option Bytes) : Console := { c with sent := c.sent ++ [text] }

/-- The head of the outer loop, for what `accept` returned. -/
def accept (c : Console) (csocket : Int) : Console :=
  if csocket = 0 then { c with mode := .left }
  else
    let errCount :=
      if csocket = -1 then (c.errCount + 1) % 2 ^ 64
      else if c.errCount ≠ 0 then c.errCount - 1 else 0
    let c := { c with errCount }
    if errCount > maxErrAccept then { c with mode := .left }
    else { c.use c.stdout with mode := .talking }

/-- One turn of the inner loop. `tmp` is `stdout`, reopened; `tmp1` reads the same file. -/
def command (c : Console) (ran : Ran) : Console :=
  let c := c.use c.stdout
  let tmp1 := c.streams
  let c := c.opened
  let c :=
    match ran with
    | .failed _ => ((c.send (reply ran)).close c.stdout).close tmp1
    | .printed _ => ((((c.use c.stdout).close c.stdout).use tmp1).send (reply ran)).close tmp1
  let tmp := c.streams
  (c.opened.use tmp).close tmp

/-- What follows the inner loop: `stdout` is a new stream. -/
def hangUp (c : Console) : Console :=
  let c := (c.use c.stdout).close c.stdout
  let stdout := c.streams
  { c.opened.use stdout with stdout, mode := .accepting }

end Console

/-- What happens: `accept` returns, or `recv` does, and the chunk that was received ends. -/
inductive Input where
  | accept (csocket : Int)
  | receive (r : RecvResult) (ran : Ran)

/-- The result of `recv`, in a `size_t`, is taken for a command. -/
def Input.Command : Input → Prop
  | accept _ => False
  | receive r _ => sizeT r.value > 0

instance : DecidablePred Input.Command
  | .accept _ => inferInstanceAs (Decidable False)
  | .receive r _ => inferInstanceAs (Decidable (sizeT r.value > 0))

def step (c : Console) : Input → Console
  | .accept csocket => c.accept csocket
  | .receive r ran => if sizeT r.value > 0 then c.command ran else c.hangUp

/-- The call that returns is the one the loops have come to. -/
def Possible (c : Console) : Input → Prop
  | .accept _ => c.mode = .accepting
  | .receive _ _ => c.mode = .talking

instance (c : Console) : DecidablePred (Possible c)
  | .accept _ => inferInstanceAs (Decidable (c.mode = .accepting))
  | .receive _ _ => inferInstanceAs (Decidable (c.mode = .talking))

/-- **No stream is used or closed after it was closed.** -/
structure Right (log : List (Event Nat Nat)) : Prop where
  live : ReadsLive id log
  once : ∀ stream, frees log stream ≤ 1

section Log

variable {log more : List (Event Nat Nat)} {stream other : Nat}

theorem right_nil : Right [] where
  live := readsLive_nil id
  once _ := Nat.zero_le _

theorem right_of_append (right : Right (log ++ more)) : Right log where
  live := (readsLive_append.mp right.live).1
  once stream := by
    have atMost := right.once stream
    rw [frees_append] at atMost
    omega

theorem frees_use : frees [(.read stream : Event Nat Nat)] other = 0 :=
  frees_eq_zero.mpr fun member => by cases List.mem_singleton.mp member

theorem frees_close : frees [(.free stream : Event Nat Nat)] other = if stream = other then 1 else 0 := by
  simp [frees, List.count_cons]

/-- **A use** is right for an open stream. -/
theorem right_use_iff : Right (log ++ [.read stream]) ↔ Right log ∧ frees log stream = 0 := by
  constructor
  · intro right
    refine ⟨right_of_append right, frees_eq_zero.mpr ?_⟩
    exact (readsLive_append.mp right.live).2.2 stream (List.mem_singleton_self _)
  · rintro ⟨right, unclosed⟩
    refine ⟨readsLive_append.mpr ⟨right.live, readsLive_singleton _, fun place member => ?_⟩, fun s => ?_⟩
    · obtain rfl := Event.read.inj (List.mem_singleton.mp member)
      exact frees_eq_zero.mp unclosed
    · rw [frees_append, frees_use]
      exact right.once s

/-- **So is a close.** -/
theorem right_close_iff : Right (log ++ [.free stream]) ↔ Right log ∧ frees log stream = 0 := by
  constructor
  · intro right
    have atMost := right.once stream
    rw [frees_append, frees_close, if_pos rfl] at atMost
    exact ⟨right_of_append right, by omega⟩
  · rintro ⟨right, unclosed⟩
    refine ⟨readsLive_append.mpr ⟨right.live, readsLive_singleton _, fun place member => ?_⟩, fun s => ?_⟩
    · cases List.mem_singleton.mp member
    · have atMost := right.once s
      rw [frees_append, frees_close]
      split
      · next same => rw [← same, unclosed]
      · exact atMost

end Log

/-! ### One step -/

/-- **What every step keeps**: streams that are not yet opened are not closed. -/
structure Formed (c : Console) : Prop where
  opened : c.stdout < c.streams
  fresh : ∀ stream, c.streams ≤ stream → frees c.log stream = 0

/-- `stdout` is open. -/
def Usable (c : Console) : Prop := frees c.log c.stdout = 0

section Steps

variable {c : Console} {input : Input} {garbage : Nat}

/-- The log of a command; both kinds of end close `stdout`. -/
theorem log_command (c : Console) (ran : Ran) : ∃ flush : List (Event Nat Nat),
    (flush = [] ∨ flush = [.read c.stdout]) ∧ ∃ back : List (Event Nat Nat),
    (back = [] ∨ back = [.read c.streams]) ∧
    (c.command ran).log = c.log ++ [.read c.stdout] ++ flush ++ [.free c.stdout] ++ back ++
      [.free c.streams] ++ [.read (c.streams + 1)] ++ [.free (c.streams + 1)] := by
  cases ran with
  | failed message =>
    exact ⟨[], Or.inl rfl, [], Or.inl rfl, by simp [Console.command, Console.use, Console.close,
      Console.opened, Console.send]⟩
  | printed text =>
    exact ⟨_, Or.inr rfl, _, Or.inr rfl, by simp [Console.command, Console.use, Console.close,
      Console.opened, Console.send]⟩

/-- It goes on talking, over the same `stdout`, with two streams more. -/
theorem command_fields (c : Console) (ran : Ran) : (c.command ran).mode = c.mode ∧
    (c.command ran).stdout = c.stdout ∧ (c.command ran).streams = c.streams + 2 := by
  cases ran <;> simp [Console.command, Console.use, Console.close, Console.opened, Console.send]

theorem log_hangUp (c : Console) : c.hangUp.log =
    c.log ++ [.read c.stdout] ++ [.free c.stdout] ++ [.read c.streams] := rfl

theorem frees_command (c : Console) (ran : Ran) (stream : Nat) :
    frees (c.command ran).log stream = frees c.log stream + (if c.stdout = stream then 1 else 0) +
      (if c.streams = stream then 1 else 0) + (if c.streams + 1 = stream then 1 else 0) := by
  obtain ⟨flush, isFlush, back, isBack, log⟩ := log_command c ran
  have none : frees flush stream = 0 ∧ frees back stream = 0 := by
    rcases isFlush with rfl | rfl <;> rcases isBack with rfl | rfl <;> simp [frees_use]
  rw [log]
  simp only [frees_append, frees_use, frees_close, none]
  omega

theorem frees_hangUp (c : Console) (stream : Nat) :
    frees c.hangUp.log stream = frees c.log stream + if c.stdout = stream then 1 else 0 := by
  rw [log_hangUp]
  simp only [frees_append, frees_use, frees_close]
  omega

/-- **A command is right** if `stdout` is open. -/
theorem right_command_iff (formed : Formed c) (ran : Ran) :
    Right (c.command ran).log ↔ Right c.log ∧ Usable c := by
  obtain ⟨flush, isFlush, back, isBack, log⟩ := log_command c ran
  have different := Nat.ne_of_lt formed.opened
  have second : c.stdout ≠ c.streams + 1 := by
    have below := formed.opened
    omega
  have first := formed.fresh c.streams (le_refl _)
  have next := formed.fresh (c.streams + 1) (Nat.le_succ _)
  rw [log, Usable]
  rcases isFlush with rfl | rfl <;> rcases isBack with rfl | rfl <;>
    simp only [List.append_nil, right_use_iff, right_close_iff, frees_append, frees_use, frees_close,
      first, next, different, second, if_false, Nat.add_zero, and_true, and_self, and_assoc] <;>
    simp

theorem right_hangUp_iff (formed : Formed c) : Right c.hangUp.log ↔ Right c.log ∧ Usable c := by
  have different := Nat.ne_of_lt formed.opened
  have first := formed.fresh c.streams (le_refl _)
  rw [log_hangUp, Usable]
  simp only [right_use_iff, right_close_iff, frees_append, frees_use, frees_close, first, different,
    if_false, Nat.add_zero, and_true, and_self, and_assoc]

/-- `accept` leaves the streams as they are, and writes to `stdout` at most. -/
theorem accept_cases (c : Console) (csocket : Int) :
    (c.accept csocket).stdout = c.stdout ∧ (c.accept csocket).streams = c.streams ∧
      ((c.accept csocket).log = c.log ∨ (c.accept csocket).log = c.log ++ [.read c.stdout]) := by
  rw [Console.accept]
  generalize (if csocket = -1 then (c.errCount + 1) % 2 ^ 64
    else if c.errCount ≠ 0 then c.errCount - 1 else 0) = errCount
  by_cases stops : csocket = 0
  · rw [if_pos stops]
    exact ⟨rfl, rfl, Or.inl rfl⟩
  · rw [if_neg stops]
    by_cases many : errCount > maxErrAccept
    · simp only [many, if_true, true_or, and_self]
    · simp only [many, if_false]
      exact ⟨rfl, rfl, Or.inr rfl⟩

theorem frees_accept (c : Console) (csocket : Int) (stream : Nat) :
    frees (c.accept csocket).log stream = frees c.log stream := by
  rcases (accept_cases c csocket).2.2 with log | log
  · rw [log]
  · rw [log, frees_append, frees_use, Nat.add_zero]

theorem formed_step (formed : Formed c) (input : Input) : Formed (step c input) := by
  have below := formed.opened
  cases input with
  | accept csocket =>
    obtain ⟨stdout, streams, _⟩ := accept_cases c csocket
    refine ⟨?_, fun stream later => ?_⟩
    · rw [step, stdout, streams]
      exact below
    · rw [step, streams] at later
      rw [step, frees_accept, formed.fresh stream later]
  | receive r ran =>
    rw [step]
    split
    · obtain ⟨_, stdout, streams⟩ := command_fields c ran
      refine ⟨?_, fun stream later => ?_⟩
      · rw [stdout, streams]
        omega
      · rw [streams] at later
        rw [frees_command, formed.fresh stream (by omega), if_neg (by omega), if_neg (by omega),
          if_neg (by omega)]
    · refine ⟨Nat.lt_succ_self _, fun stream later => ?_⟩
      have behind : c.streams + 1 ≤ stream := later
      rw [frees_hangUp, formed.fresh stream (by omega), if_neg (by omega)]

/-- **What is right stays right** until a command comes, and so does `stdout`. -/
theorem step_of_no_command (formed : Formed c) (right : Right c.log) (usable : Usable c)
    (none : ¬ input.Command) : Right (step c input).log ∧ Usable (step c input) := by
  cases input with
  | accept csocket =>
    obtain ⟨stdout, _, log⟩ := accept_cases c csocket
    refine ⟨?_, ?_⟩
    · rcases log with log | log
      · rw [step, log]
        exact right
      · rw [step, log, right_use_iff]
        exact ⟨right, usable⟩
    · rw [Usable, step, frees_accept, stdout]
      exact usable
  | receive r ran =>
    have nothing : ¬ sizeT r.value > 0 := none
    rw [step, if_neg nothing]
    refine ⟨(right_hangUp_iff formed).mpr ⟨right, usable⟩, ?_⟩
    have fresh := formed.fresh c.streams (le_refl _)
    have different := Nat.ne_of_lt formed.opened
    have stdout : c.hangUp.stdout = c.streams := rfl
    rw [Usable, stdout, frees_hangUp, fresh, if_neg different]

/-- **A command** is right itself, and closes `stdout`. -/
theorem step_of_command (formed : Formed c) (right : Right c.log) (usable : Usable c)
    (command : input.Command) (possible : Possible c input) :
    Right (step c input).log ∧ ¬ Usable (step c input) ∧ (step c input).mode = .talking := by
  cases input with
  | accept csocket => cases command
  | receive r ran =>
    have received : sizeT r.value > 0 := command
    rw [step, if_pos received]
    obtain ⟨mode, stdout, _⟩ := command_fields c ran
    refine ⟨(right_command_iff formed ran).mpr ⟨right, usable⟩, fun again => ?_, mode.trans possible⟩
    rw [Usable, stdout, frees_command, if_pos rfl] at again
    omega

/-- **After a command** nothing is right that can happen. -/
theorem not_right_of_unusable (formed : Formed c) (unusable : ¬ Usable c) (mode : c.mode = .talking)
    (possible : Possible c input) : ¬ Right (step c input).log := by
  cases input with
  | accept csocket =>
    have accepting : c.mode = .accepting := possible
    rw [mode] at accepting
    cases accepting
  | receive r ran =>
    rw [step]
    split
    · exact fun right => unusable ((right_command_iff formed ran).mp right).2
    · exact fun right => unusable ((right_hangUp_iff formed).mp right).2

/-! ### A run -/

/-- A step only adds to the log. -/
theorem right_of_step (right : Right (step c input).log) : Right c.log := by
  cases input with
  | accept csocket =>
    rcases (accept_cases c csocket).2.2 with log | log
    · rwa [step, log] at right
    · rw [step, log] at right
      exact right_of_append right
  | receive r ran =>
    rw [step] at right
    split at right
    · obtain ⟨flush, _, back, _, log⟩ := log_command c ran
      simp only [log, List.append_assoc] at right
      exact right_of_append right
    · rw [log_hangUp, List.append_assoc, List.append_assoc] at right
      exact right_of_append right

theorem right_of_run {inputs : List Input} (right : Right (run step c inputs).log) : Right c.log := by
  induction inputs generalizing c with
  | nil => exact right
  | cons input inputs ih => exact right_of_step (ih right)

theorem run_right_iff (formed : Formed c) (right : Right c.log) (usable : Usable c)
    {inputs : List Input} (possible : EveryStep step Possible c inputs) :
    Right (run step c inputs).log ↔ ∀ input ∈ inputs.dropLast, ¬ input.Command := by
  induction inputs generalizing c with
  | nil => exact iff_of_true right fun input member => by cases member
  | cons input inputs ih =>
    obtain ⟨here, later⟩ := possible
    have next := formed_step formed input
    by_cases command : input.Command
    · obtain ⟨after, unusable, mode⟩ := step_of_command formed right usable command here
      cases inputs with
      | nil => exact iff_of_true after fun input member => by cases member
      | cons second inputs =>
        refine iff_of_false (fun all => ?_) fun none => none input List.mem_cons_self command
        exact not_right_of_unusable next unusable mode later.1 (right_of_run all)
    · obtain ⟨after, still⟩ := step_of_no_command formed right usable command
      rw [run_cons, ih next after still later]
      cases inputs with
      | nil => simp
      | cons second inputs =>
        rw [List.dropLast_cons_cons, List.forall_mem_cons]
        exact (and_iff_right command).symm

theorem formed_start (garbage : Nat) : Formed (Console.start garbage) where
  opened := Nat.zero_lt_one
  fresh _ _ := rfl

/-- **The console uses no closed stream** exactly as long as nothing happens after a command: neither can
another one come, nor can the client hang up. -/
theorem console_right_iff {inputs : List Input}
    (possible : EveryStep step Possible (Console.start garbage) inputs) :
    Right (run step (Console.start garbage) inputs).log ↔
      ∀ input ∈ inputs.dropLast, ¬ input.Command :=
  run_right_iff (formed_start garbage) right_nil rfl possible

end Steps

/-- A client that comes and goes, and one that sends a command and goes. -/
def sampleInputs : List Input :=
  [.accept 4, .receive (.data [] (by decide)) (.printed []), .accept 4,
    .receive (.data [49] (by decide)) (.printed [])]

theorem console_sample :
    Right (run step (Console.start 0) sampleInputs).log ∧
      ¬ Right (run step (Console.start 0)
        (sampleInputs ++ [.receive (.data [] (by decide)) (.printed [])])).log := by
  refine ⟨(console_right_iff (by decide)).mpr (by decide), fun right => ?_⟩
  have member : Input.receive (.data [49] (by decide)) (.printed []) ∈
      (sampleInputs ++ [Input.receive (.data [] (by decide)) (.printed [])]).dropLast := by
    simp [sampleInputs]
  exact (console_right_iff (by decide)).mp right _ member (by decide)

end Bacteria.Serv.LuaServer
