import Mathlib
import StackMachine.Machine.Loading
import StackMachine.Proofs.ProgramGrowth

/-! # Loads and what they leave behind

A file that is refused leaves behind the functions that were added before it was. Names and
indices of later files find them. All other functions of a machine were accepted, so a machine
runs accepted code only, exactly if what was left behind within reach of the entry is acceptable.
-/

namespace StackMachine

inductive LoadRequest where
  | library (input : List UInt8) (origin : String)
  | program (input : List UInt8) (origin : String)
  | image (input : List UInt8) (origin : String)

namespace Machine

def handle (m : Machine) : LoadRequest → Machine
  | .library input origin => (m.loadLibrary input origin).1
  | .program input origin => (m.loadProgram input origin).1
  | .image input origin => (m.loadImage input origin).1

def handleAll (m : Machine) (requests : List LoadRequest) : Machine := requests.foldl handle m

/-- The functions that a load adds although their file is refused. -/
def leaves (m : Machine) : LoadRequest → List LinkedFunction
  | .library input origin | .program input origin =>
      match (m.program.load input origin).result with
      | .ok _ => []
      | .error _ =>
          (m.program.load input origin).program.functions.toList.drop m.program.functions.size
  | .image _ _ => []

def leftBehind (m : Machine) : List LoadRequest → List LinkedFunction
  | [] => []
  | request :: later => m.leaves request ++ (m.handle request).leftBehind later

end Machine

inductive Program.Calls (p : Program) (entry : LinkedFunction) : LinkedFunction → Prop where
  | entry : Calls p entry entry
  | callee {f g : LinkedFunction} {i : Instruction} (caller : Calls p entry f)
      (member : i ∈ f.code.toList) (opcode : i.opcode = .call)
      (found : p.function i.arg = .ok g) : Calls p entry g

namespace Program

variable {p q : Program} {f entry : LinkedFunction}

theorem Calls.mem (calls : p.Calls entry f) (registered : entry ∈ p.functions) :
    f ∈ p.functions := by
  induction calls with
  | entry => exact registered
  | callee _ _ _ found => exact mem_of_function found

/-- A function of a program that has grown was there before or is among those added. -/
theorem Extends.mem (grown : p.Extends q) (member : f ∈ q.functions) :
    f ∈ p.functions ∨ f ∈ q.functions.toList.drop p.functions.size := by
  obtain ⟨i, bound, rfl⟩ := Array.getElem_of_mem member
  by_cases old : i < p.functions.size
  · left
    have same := grown.functions i p.functions[i] (Array.getElem?_eq_getElem old)
    rw [Array.getElem?_eq_getElem bound] at same
    rw [Option.some.inj same]
    exact Array.getElem_mem old
  · right
    refine List.mem_of_getElem? (i := i - p.functions.size) ?_
    rw [List.getElem?_drop, Array.getElem?_toList]
    rw [show p.functions.size + (i - p.functions.size) = i by omega]
    exact Array.getElem?_eq_getElem bound

theorem accepted_of_verifyFrom {first : Nat} (verified : p.verifyFrom first = .ok ())
    (member : f ∈ p.functions.toList.drop first) : p.verifyFunction f = .ok () :=
  accepted_of_verifyAll verified f member

theorem entryPoint_spec (found : p.entryPoint = .ok f) : f ∈ p.functions ∧ f.params = [] := by
  unfold entryPoint function? at found
  cases index : p.functionIndex? entryName with
  | none => simp [index] at found
  | some i =>
      simp only [index, Option.bind_some] at found
      cases at_index : p.functions[i]? with
      | none => simp [at_index] at found
      | some g =>
          simp only [at_index] at found
          split at found
          · rename_i fits
            cases found
            have parameterless := (Bool.and_eq_true_iff.mp fits).1
            exact ⟨Array.mem_of_getElem? at_index, List.isEmpty_iff.mp parameterless⟩
          · cases found

theorem verified_of_loadImage {input : List UInt8} {log : List LogEntry}
    (loaded : loadImage input = (.ok p, log)) : p.verifyFrom 0 = .ok () := by
  obtain ⟨image, rest, _, _, restored⟩ := loadImage_eq_ok_iff.mp ⟨log, loaded⟩
  obtain ⟨_, _, _, verified⟩ := restore_eq_ok_iff.mp restored
  exact verified

end Program

/-! ## What loads keep -/

/-- Every function that was not left behind is accepted, and the entry is one of the functions. -/
structure Machine.Vetted (m : Machine) (left : List LinkedFunction) : Prop where
  functions : ∀ f ∈ m.program.functions, m.program.verifyFunction f = .ok () ∨ f ∈ left
  entry : ∀ f, m.entry = some f → f ∈ m.program.functions ∧ f.params = []

namespace Machine.Vetted

variable {m : Machine} {left : List LinkedFunction}

theorem new (config : Config) (console : Console) (log : Log) :
    (Machine.new config console log).Vetted [] where
  functions := by
    intro f member
    simp [Machine.new, Program.empty] at member
  entry := by
    intro f set
    cases set

/-- Functions of a file that is accepted are accepted, those of a refused one are left behind,
and those that were there before stay what they were. -/
theorem functions_of_load (vetted : m.Vetted left) (input : List UInt8) (origin : String) :
    ∀ f ∈ (m.program.load input origin).program.functions,
      (m.program.load input origin).program.verifyFunction f = .ok ()
        ∨ f ∈ left ++ m.leaves (.library input origin) := by
  obtain ⟨grown, verified⟩ := m.program.load_spec input origin
  intro f member
  rcases grown.mem member with old | added
  · rcases vetted.functions f old with accepted | behind
    · exact .inl (grown.verifyFunction accepted)
    · exact .inr (List.mem_append_left _ behind)
  · cases result : (m.program.load input origin).result with
    | ok counts => exact .inl (Program.accepted_of_verifyFrom (verified counts result) added)
    | error e =>
        refine .inr (List.mem_append_right _ ?_)
        simp only [Machine.leaves, result]
        exact added

/-- An entry stays a function of the machine. -/
theorem entry_of_load (vetted : m.Vetted left) (input : List UInt8) (origin : String) :
    ∀ f, m.entry = some f →
      f ∈ (m.program.load input origin).program.functions ∧ f.params = [] := by
  intro f set
  obtain ⟨member, parameterless⟩ := vetted.entry f set
  obtain ⟨i, bound, rfl⟩ := Array.getElem_of_mem member
  have grown := (m.program.load_spec input origin).1
  have kept := grown.functions i _ (Array.getElem?_eq_getElem bound)
  exact ⟨Array.mem_of_getElem? kept, parameterless⟩

theorem library (vetted : m.Vetted left) (input : List UInt8) (origin : String) :
    (m.handle (.library input origin)).Vetted (left ++ m.leaves (.library input origin)) := by
  have functions := vetted.functions_of_load input origin
  have entry := vetted.entry_of_load input origin
  show (m.loadLibrary input origin).1.Vetted _
  unfold Machine.loadLibrary
  dsimp only
  split
  · exact ⟨functions, entry⟩
  · exact ⟨functions, entry⟩

theorem program (vetted : m.Vetted left) (input : List UInt8) (origin : String) :
    (m.handle (.program input origin)).Vetted (left ++ m.leaves (.program input origin)) := by
  have functions := vetted.functions_of_load input origin
  have entry := vetted.entry_of_load input origin
  show (m.loadProgram input origin).1.Vetted _
  unfold Machine.loadProgram Program.loadMain
  dsimp only
  cases result : (m.program.load input origin).result with
  | error e => exact ⟨functions, entry⟩
  | ok counts =>
      dsimp only
      cases found : (m.program.load input origin).program.entryPoint with
      | error e => exact ⟨functions, entry⟩
      | ok f =>
          refine ⟨functions, ?_⟩
          intro g set
          cases set
          exact Program.entryPoint_spec found

theorem image (vetted : m.Vetted left) (input : List UInt8) (origin : String) :
    (m.handle (.image input origin)).Vetted (left ++ m.leaves (.image input origin)) := by
  have unchanged : m.Vetted (left ++ m.leaves (.image input origin)) := by
    refine ⟨?_, vetted.entry⟩
    intro f member
    exact (vetted.functions f member).imp_right (List.mem_append_left _)
  show (m.loadImage input origin).1.Vetted _
  unfold Machine.loadImage
  by_cases empty : m.program.functions.isEmpty = true
  · rw [if_pos empty]
    cases loaded : Program.loadImage input with
    | mk result log =>
        cases result with
        | error e => exact ⟨unchanged.functions, unchanged.entry⟩
        | ok p =>
            have verified := Program.verified_of_loadImage loaded
            have accepted : ∀ f ∈ p.functions, p.verifyFunction f = .ok ()
                ∨ f ∈ left ++ m.leaves (.image input origin) := by
              intro f member
              exact .inl (Program.accepted_of_verifyFrom verified (by simpa using member))
            dsimp only
            cases found : p.entryPoint with
            | error e =>
                refine ⟨accepted, ?_⟩
                intro f set
                have member := (vetted.entry f set).1
                rw [Array.isEmpty_iff.mp empty] at member
                simp at member
            | ok f =>
                refine ⟨accepted, ?_⟩
                intro g set
                cases set
                exact Program.entryPoint_spec found
  · rw [if_neg empty]
    exact unchanged

theorem handle (vetted : m.Vetted left) (request : LoadRequest) :
    (m.handle request).Vetted (left ++ m.leaves request) := by
  cases request with
  | library input origin => exact vetted.library input origin
  | program input origin => exact vetted.program input origin
  | image input origin => exact vetted.image input origin

theorem handleAll (vetted : m.Vetted left) (requests : List LoadRequest) :
    (m.handleAll requests).Vetted (left ++ m.leftBehind requests) := by
  induction requests generalizing m left with
  | nil =>
      rw [Machine.leftBehind, List.append_nil]
      exact vetted
  | cons request later ih =>
      have after := ih (vetted.handle request)
      rw [List.append_assoc] at after
      exact after

end Machine.Vetted

/-! ## What a machine runs -/

/-- The faults of a machine's run are those of a run of its entry. -/
theorem Machine.fault_of_run {m m' : Machine} {entry : LinkedFunction} {fuel : Nat}
    {e : RuntimeError} (set : m.entry = some entry)
    (run : m.run fuel = some (m', .error (.runtime e))) :
    ∃ s t, State.run m.environment fuel s entry = some (t, .error e) := by
  unfold Machine.run Machine.runFunction at run
  rw [set] at run
  dsimp only at run
  split at run
  · cases run
  · cases run
  · rename_i failed
    split at failed
    · cases failed
    · rename_i ran
      cases failed
      cases run
      exact ⟨_, _, ran⟩

/-- Whatever a machine has loaded, with success or without: all code within reach of its entry is
accepted if and only if the code within reach that refused files left behind is. Then no run
fails with a fault that verification excludes. -/
theorem reachable_code_accepted_iff (config : Config) (console : Console) (log : Log)
    (requests : List LoadRequest) (m : Machine) (entry : LinkedFunction)
    (loaded : m = (Machine.new config console log).handleAll requests)
    (set : m.entry = some entry) :
    ((∀ f, m.program.Calls entry f → m.program.verifyFunction f = .ok ())
      ↔ ∀ f ∈ (Machine.new config console log).leftBehind requests,
          m.program.Calls entry f → m.program.verifyFunction f = .ok ())
    ∧ ((∀ f ∈ (Machine.new config console log).leftBehind requests,
          m.program.Calls entry f → m.program.verifyFunction f = .ok ()) →
        ∀ fuel m' e, m.run fuel = some (m', .error (.runtime e)) →
          e.fault.isExcluded = false) := by
  have vetted := (Machine.Vetted.new config console log).handleAll requests
  rw [← loaded, List.nil_append] at vetted
  obtain ⟨registered, parameterless⟩ := vetted.entry entry set
  have accepted : (∀ f ∈ (Machine.new config console log).leftBehind requests,
      m.program.Calls entry f → m.program.verifyFunction f = .ok ()) →
      ∀ f, m.program.Calls entry f → m.program.verifyFunction f = .ok () := by
    intro behind f calls
    rcases vetted.functions f (calls.mem registered) with accepted | left
    · exact accepted
    · exact behind f left calls
  refine ⟨⟨fun all f _ => all f, accepted⟩, ?_⟩
  intro behind fuel m' e run
  have closed : CallClosed m.environment.program (m.program.Calls entry) :=
    ⟨accepted behind, fun f caller i member opcode g found => .callee caller member opcode found⟩
  obtain ⟨s, t, ran⟩ := Machine.fault_of_run set run
  exact (closed.no_excluded_fault s .entry parameterless).2 fuel t e ran

/-! A library is refused for a function that adds two operands of an empty stack. If the
function is not called, what runs is accepted; if it is named `Main`, it runs. -/

namespace Refused

def text (s : String) : Constant := ⟨.string, s.toUTF8.toList⟩

def adding : FunctionRecord := ⟨0, 1, 2, 0, 0, #[⟨.binary .add, none⟩, ⟨.ret, none⟩]⟩

def file (name : String) : ProgramFile :=
  ⟨⟨0, 1, 0⟩, [text name, text "", text "void;"], [adding], []⟩

def left : LinkedFunction := ⟨"Sum", adding, [], .void⟩

def main : LinkedFunction :=
  ⟨"Main", ⟨3, 4, 5, 0, 0, #[⟨.call, some 2⟩, ⟨.ret, none⟩]⟩, [], .void⟩

def helper : LinkedFunction := ⟨"Help", ⟨6, 4, 5, 0, 0, #[⟨.ret, none⟩]⟩, [], .void⟩

/-- The file of `main` and `helper`, with indices that count from its own start. -/
def calling : ProgramFile :=
  ⟨⟨0, 1, 0⟩, [text "Main", text "", text "void;", text "Help"],
    [⟨0, 1, 2, 0, 0, #[⟨.call, some 1⟩, ⟨.ret, none⟩]⟩, ⟨3, 1, 2, 0, 0, #[⟨.ret, none⟩]⟩], []⟩

def requests : List LoadRequest :=
  [.library (file "Sum").encode "std.ball", .program calling.encode "main.ball"]

def machine : Machine := (Machine.new {} .working (.empty none)).handleAll requests

theorem machine_loaded :
    machine.entry = some main ∧ machine.program.function 2 = .ok helper
      ∧ (Machine.new {} .working (.empty none)).leftBehind requests = [left] := by
  have all : (machine.entry, machine.program.function 2,
      (Machine.new {} .working (.empty none)).leftBehind requests)
        = (some main, .ok helper, [left]) := by cbv
  simpa only [Prod.mk.injEq] using all

theorem calls_of_main {f : LinkedFunction} (calls : machine.program.Calls main f) :
    f = main ∨ f = helper := by
  induction calls with
  | entry => exact .inl rfl
  | @callee f g i caller member opcode found ih =>
      rcases ih with rfl | rfl
      · have instruction : i = ⟨.call, some 2⟩ := by
          simp only [main, LinkedFunction.code, List.mem_cons, List.not_mem_nil, or_false] at member
          rcases member with rfl | rfl
          · rfl
          · cases opcode
        subst instruction
        have callee := machine_loaded.2.1
        rw [show (Instruction.mk .call (some 2)).arg = 2 from rfl, callee] at found
        cases found
        exact .inr rfl
      · simp only [helper, LinkedFunction.code, List.mem_cons, List.not_mem_nil, or_false] at member
        subst member
        cases opcode

theorem unreached_is_harmless :
    machine.entry = some main
      ∧ (Machine.new {} .working (.empty none)).leftBehind requests = [left]
      ∧ ∀ fuel m' e, machine.run fuel = some (m', .error (.runtime e)) →
          e.fault.isExcluded = false := by
  obtain ⟨set, _, behind⟩ := machine_loaded
  refine ⟨set, behind, ?_⟩
  refine (reachable_code_accepted_iff {} .working (.empty none) requests machine main rfl set).2 ?_
  intro f member calls
  rw [behind] at member
  have same : f = left := List.mem_singleton.mp member
  rcases calls_of_main calls with rfl | rfl
  · exact absurd same (by decide)
  · exact absurd same (by decide)

/-- The refused function as `Main`, and a file without functions that makes it the entry. -/
def unrunnable : Machine :=
  (Machine.new {} .working (.empty none)).handleAll
    [.program (file "Main").encode "bad.ball",
      .program (ProgramFile.mk ⟨0, 1, 0⟩ [] [] []).encode "good.ball"]

theorem becomes_entry_and_underflows :
    unrunnable.entry = some ⟨"Main", adding, [], .void⟩
      ∧ unrunnable.program.verifyFunction ⟨"Main", adding, [], .void⟩
        = .error ⟨"Main", 0, .underflow ⟨.binary .add, none⟩ 2 0⟩
      ∧ (unrunnable.run 3).map Prod.snd
        = some (.error (.runtime ⟨.operandStackUnderflow "ADD" 2 0, ["Main@1"]⟩)) := by
  have all : (unrunnable.entry, unrunnable.program.verifyFunction ⟨"Main", adding, [], .void⟩,
      (unrunnable.run 3).map Prod.snd)
        = (some ⟨"Main", adding, [], .void⟩,
          .error ⟨"Main", 0, .underflow ⟨.binary .add, none⟩ 2 0⟩,
          some (.error (.runtime ⟨.operandStackUnderflow "ADD" 2 0, ["Main@1"]⟩))) := by cbv
  simpa only [Prod.mk.injEq] using all

end Refused

end StackMachine
