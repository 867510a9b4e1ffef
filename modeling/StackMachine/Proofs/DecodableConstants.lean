import Mathlib
import StackMachine.Proofs.Faults
import StackMachine.Proofs.LoadHistories
import StackMachine.Proofs.Relocation

/-! # Constants that cannot be decoded

The constants of a file are as wide as their tags say. An image carries payloads of any width; a
constant that is loaded is decoded when the image is verified, but of an exit code only the tag is
looked at. So a run meets a constant that cannot be decoded only at an exit code of an image.
-/

namespace StackMachine

/-- The constant has the tag of an integer and a payload of another width. -/
def Constant.MalformedInteger (c : Constant) (reason : String) : Prop :=
  ∃ kind, c.tag = .int kind ∧ c.payload.length ≠ kind.width.bytes
    ∧ reason = s!"{kind.name} payload is {c.payload.length} bytes, expected {kind.width.bytes}"

/-- An integer fails to be decoded for its width only. -/
theorem Constant.value_eq_error_iff {c : Constant} {index : Nat} {fault : Fault}
    (integer : c.tag.isInteger = true) :
    c.value index = .error fault
      ↔ ∃ reason, fault = .malformedConstant index reason ∧ c.MalformedInteger reason := by
  unfold Constant.value Constant.widthError? Constant.MalformedInteger
  cases tag : c.tag with
  | int kind =>
      simp only [ConstantTag.width?]
      by_cases wide : c.payload.length = kind.width.bytes
      · simp [wide]
      · simp only [if_neg wide, ConstantTag.name]
        constructor
        · intro failed
          cases failed
          exact ⟨_, rfl, kind, rfl, wide, rfl⟩
        · rintro ⟨_, rfl, _, same, _, rfl⟩
          cases same
          rfl
  | string | bool | className => simp [tag, ConstantTag.isInteger] at integer

/-! ## Exit codes -/

def State.ExitsWith (s : State) (index : Nat) : Prop :=
  ∃ frame callers i, s.frames = frame :: callers ∧ frame.fetch? = some i ∧ i.opcode = .halt
    ∧ i.arg = index

section Exits

variable {env : Environment} {fuel : Nat} {s : State} {index : Nat} {c : Constant}
  {reason : String}

/-- An exit with a malformed integer fails, and prints nothing. -/
theorem State.ExitsWith.fails (exits : s.ExitsWith index) (fuel : Nat)
    (found : env.program.constant index = .ok c) (malformed : c.MalformedInteger reason) :
    ∃ u, s.step env fuel = .failed (.malformedConstant index reason) u
      ∧ u.console = s.console ∧ s.frames ≠ [] := by
  obtain ⟨frame, callers, i, frames, fetched, opcode, rfl⟩ := exits
  have integer : c.tag.isInteger = true := by
    obtain ⟨kind, tag, _⟩ := malformed
    rw [tag]
    rfl
  have code : exitCode env.program i.arg = .error (.malformedConstant i.arg reason) := by
    have value : c.value i.arg = .error (.malformedConstant i.arg reason) :=
      (Constant.value_eq_error_iff integer).mpr ⟨reason, rfl, malformed⟩
    simp only [exitCode, Program.constantValue, found, bind, Except.bind, value]
  have active : s.frames ≠ [] := by
    rw [frames]
    exact List.cons_ne_nil frame callers
  rw [State.step_of_fetch frames fetched]
  simp only [State.execute, opcode, State.halt, code]
  exact ⟨_, rfl, rfl, active⟩

/-- In accepted code nothing but an exit code turns out to be malformed. -/
theorem State.exitsWith_of_failed {u : State}
    (accepted : ∀ frame ∈ s.frames, env.program.verifyFunction frame.function = .ok ())
    (failed : s.step env fuel = .failed (.malformedConstant index reason) u) :
    s.ExitsWith index ∧ ∃ c, env.program.constant index = .ok c ∧ c.MalformedInteger reason := by
  have admitted : (s.step env fuel).FailsOnly fun fault =>
      ∀ index reason, fault = .malformedConstant index reason → s.ExitsWith index
        ∧ ∃ c, env.program.constant index = .ok c ∧ c.MalformedInteger reason := by
    refine State.failsOnly_step ?_ ?_ fuel ?_
    · rintro fault plain index reason rfl
      cases plain
    · intro id index reason blamed
      cases blamed
    · intro frame callers i frames fetched opcode fault undecoded index reason blamed
      have member : i ∈ frame.function.code.toList :=
        Array.mem_toList_iff.mpr (Array.mem_of_getElem? fetched)
      have checked := Program.operandProblem_of_accepted
        (accepted frame (frames ▸ List.mem_cons_self)) member
      rcases opcode with opcode | opcode
      · simp [Program.operandProblem?, opcode, undecoded] at checked
      · simp only [Program.operandProblem?, opcode] at checked
        cases found : env.program.constant i.arg with
        | error fault => simp [found] at checked
        | ok c =>
            have integer : c.tag.isInteger = true := by
              rw [found] at checked
              by_contra other
              simp [other] at checked
            simp only [Program.constantValue, found, bind, Except.bind] at undecoded
            obtain ⟨_, rfl, malformed⟩ := (Constant.value_eq_error_iff integer).mp undecoded
            cases blamed
            exact ⟨⟨frame, callers, i, frames, fetched, opcode, rfl⟩, c, found, malformed⟩
  rw [failed] at admitted
  exact admitted index reason rfl

end Exits

/-! ## Runs of verified programs -/

section Runs

variable {env : Environment} {s : State} {entry : LinkedFunction}

theorem RunsTo.accepted (verified : env.program.verifyFrom 0 = .ok ())
    (found : env.program.entryPoint = .ok entry) {fuel left : Nat} {t : State}
    (runs : RunsTo env fuel (s.entering entry) left t) :
    ∀ frame ∈ t.frames, env.program.verifyFunction frame.function = .ok () := by
  obtain ⟨n, chain⟩ := runs.steps
  obtain ⟨registered, parameterless⟩ := Program.entryPoint_spec found
  have closed := Program.callClosed_of_verified verified
  have arity : ([] : List Value).length = entry.arity := by
    simp [LinkedFunction.arity, parameterless]
  have heights := chain.atHeights closed ⟨registered, Frame.atHeight_enter arity, trivial⟩
  intro frame member
  exact closed.accepted _ (heights.trusted frame member)

/-- A run of a verified program ends with a malformed constant if and only if it comes to an exit
with a malformed integer, and the console can be flushed. -/
theorem State.run_malformed_iff (env : Environment) (verified : env.program.verifyFrom 0 = .ok ())
    (found : env.program.entryPoint = .ok entry) (fuel index : Nat) (reason : String) :
    (∃ t trace, s.run env fuel entry
        = some (t, .error ⟨.malformedConstant index reason, trace⟩))
      ↔ ∃ left u, RunsTo env fuel (s.entering entry) (left + 1) u
          ∧ u.console.flushError = none ∧ u.ExitsWith index
          ∧ ∃ c, env.program.constant index = .ok c ∧ c.MalformedInteger reason := by
  constructor
  · rintro ⟨t, trace, run⟩
    rcases State.runsTo_of_run run with
      ⟨_, _, io⟩ | ⟨left, u, v, runs, active, failed, flushes, _⟩
    · cases io
    · obtain ⟨exits, c, constant, malformed⟩ :=
        State.exitsWith_of_failed (runs.accepted verified found) failed
      obtain ⟨v', failed', console, _⟩ := exits.fails left constant malformed
      rw [failed] at failed'
      cases failed'
      exact ⟨left, u, runs, console ▸ flushes, exits, c, constant, malformed⟩
  · rintro ⟨left, u, runs, flushes, exits, c, constant, malformed⟩
    obtain ⟨v, failed, console, active⟩ := exits.fails left constant malformed
    exact ⟨_, _, runs.run_of_failed active failed (console ▸ flushes)⟩

end Runs

/-- The constants of a program that was loaded from a file alone can be decoded. -/
theorem Program.not_malformed_of_load {input : List UInt8} {origin : String} {counts : Counts}
    (loaded : (Program.empty.load input origin).result = .ok counts) {index : Nat} {c : Constant}
    (found : (Program.empty.load input origin).program.constant index = .ok c)
    {reason : String} : ¬ c.MalformedInteger reason := by
  obtain ⟨file, rest, parsed, linked⟩ := link_of_load loaded
  obtain ⟨functions, links⟩ := links_of_link linked
  have portable := portable_of_alone links (ProgramFile.parse_iff.mp parsed).1
  have member : c ∈ (Program.empty.load input origin).program.constants := by
    unfold Program.constant at found
    split at found
    · rename_i there
      cases found
      exact Array.mem_of_getElem? there
    · cases found
  have wide := portable.widths c member
  rintro ⟨kind, tag, other, _⟩
  simp [Constant.widthError?, tag, ConstantTag.width?, other] at wide

/-- Whatever the configuration and the compiler, no run of a program that was loaded from a file
alone ends with a malformed constant. A run of a program from an image ends so if and only if it
comes to an exit whose code is a constant with the tag of an integer and a payload of another
width. -/
theorem only_exit_codes_of_images_are_malformed (config : Config) (compiler : Option Compiler)
    (s : State) :
    (∀ input origin counts entry,
      (Program.empty.load input origin).result = .ok counts →
      (Program.empty.load input origin).program.entryPoint = .ok entry →
      ∀ fuel t index reason trace,
        s.run ⟨config, compiler, (Program.empty.load input origin).program⟩ fuel entry
          ≠ some (t, .error ⟨.malformedConstant index reason, trace⟩)) ∧
    ∀ input p log entry, Program.loadImage input = (.ok p, log) → p.entryPoint = .ok entry →
      ∀ fuel index reason,
        (∃ t trace, s.run ⟨config, compiler, p⟩ fuel entry
            = some (t, .error ⟨.malformedConstant index reason, trace⟩))
          ↔ ∃ left u, RunsTo ⟨config, compiler, p⟩ fuel (s.entering entry) (left + 1) u
              ∧ u.console.flushError = none ∧ u.ExitsWith index
              ∧ ∃ c, p.constant index = .ok c ∧ c.MalformedInteger reason := by
  refine ⟨?_, ?_⟩
  · intro input origin counts entry loaded found fuel t index reason trace run
    have verified : (Program.empty.load input origin).program.verifyFrom 0 = .ok () :=
      (Program.empty.load_spec input origin).2 counts loaded
    obtain ⟨_, _, _, _, _, c, constant, malformed⟩ :=
      (State.run_malformed_iff ⟨config, compiler, _⟩ verified found fuel index reason).mp
        ⟨t, trace, run⟩
    exact Program.not_malformed_of_load loaded constant malformed
  · intro input p log entry loaded found fuel index reason
    exact State.run_malformed_iff ⟨config, compiler, p⟩ (Program.verified_of_loadImage loaded) found
      fuel index reason

namespace NarrowExit

def halting : FunctionRecord := ⟨1, 2, 3, 0, 0, #[⟨.halt, some 0⟩]⟩

def main : LinkedFunction := ⟨"Main", halting, [], .void⟩

def program (payload : List UInt8) : Program :=
  ⟨#[⟨.int .i32, payload⟩, .ofString "Main", .ofString "", .ofString "void;"], #[main], #[],
    ⟨[("Main", 0)]⟩, .empty⟩

def file : ProgramFile :=
  ⟨⟨0, 1, 0⟩, (program [0, 0, 0, 7]).constants.toList, [halting], []⟩

def image : List UInt8 := (program [0, 7]).saveImage

def start : State := State.start {} .working (.empty none)

def environment : Environment := ⟨{}, some .bundled, program [0, 7]⟩

theorem image_fails_and_file_does_not :
    (∃ t trace, start.run environment 1 main
        = some (t, .error ⟨.malformedConstant 0 "I32 payload is 2 bytes, expected 4", trace⟩)) ∧
    ∃ entry, (Program.empty.load file.encode "exit.ball").program.entryPoint = .ok entry ∧
      ∀ fuel t index reason trace,
        start.run ⟨{}, some .bundled, (Program.empty.load file.encode "exit.ball").program⟩ fuel
          entry ≠ some (t, .error ⟨.malformedConstant index reason, trace⟩) := by
  have law := only_exit_codes_of_images_are_malformed {} (some .bundled) start
  refine ⟨?_, ?_⟩
  · have loaded : (Program.loadImage image).1 = .ok (program [0, 7]) := by cbv
    have entry : (program [0, 7]).entryPoint = .ok main := by cbv
    have exits : (start.entering main).ExitsWith 0 := ⟨_, _, _, rfl, rfl, rfl, rfl⟩
    refine (law.2 image _ _ main (Prod.ext loaded rfl) entry 1 0 _).mpr
      ⟨0, _, .refl 1 _, rfl, exits, _, rfl, .i32, rfl, by decide, by cbv⟩
  · have loaded : ((Program.empty.load file.encode "exit.ball").result,
        (Program.empty.load file.encode "exit.ball").program.entryPoint)
          = (.ok ⟨4, 1, 0⟩, .ok main) := by cbv
    obtain ⟨result, entry⟩ := Prod.mk.inj loaded
    exact ⟨main, entry, law.1 file.encode "exit.ball" _ main result entry⟩

theorem accepted_image_is_malformed :
    ((Machine.new {} .working (.empty none)).loadImage image "exit.bimg").2 = .ok ()
      ∧ (((Machine.new {} .working (.empty none)).loadImage image "exit.bimg").1.run 1).map Prod.snd
        = some (.error (.runtime ⟨.malformedConstant 0 "I32 payload is 2 bytes, expected 4",
          ["Main@1"]⟩)) := by
  have all : (((Machine.new {} .working (.empty none)).loadImage image "exit.bimg").2,
      (((Machine.new {} .working (.empty none)).loadImage image "exit.bimg").1.run 1).map Prod.snd)
        = (.ok (), some (.error (.runtime
          ⟨.malformedConstant 0 "I32 payload is 2 bytes, expected 4", ["Main@1"]⟩))) := by cbv
  simpa only [Prod.mk.injEq] using all

end NarrowExit

end StackMachine
