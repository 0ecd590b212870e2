import Scriptlet.Proofs.Input.Lines

/-!
# What reads take from the lines

Reads are made one after the other, also after one of them has failed. Each takes lines
from where the one before it has stopped: it passes over the lines that are not values of
its type, and ends with the first one that is, with the first one that is not text, or
where no line is left. So the lines that are taken, read by read, and those that are left
are the lines of the stream. A read asks once for each line that it takes, and once more
if it finds the end of the stream.
-/

namespace Scriptlet

/-- Makes reads of the given types one after the other, whatever becomes of each. -/
def InputSource.readAll {σ : Type} [InputSource σ] :
    List Ty → σ → List (Except InputError Value) × σ
  | [], input => ([], input)
  | ty :: tys, input =>
    let (answer, next) := read ty input
    let (answers, last) := readAll tys next
    (answer :: answers, last)

namespace LineInput

/-- The question for a value of a type, put a number of times. -/
def questions (ty : Ty) (times : Nat) : String :=
  String.join (List.replicate times (Prompt.question ty))

theorem questions_succ (ty : Ty) (times : Nat) :
    questions ty (times + 1) = Prompt.question ty ++ questions ty times := by
  rw [questions, List.replicate_succ, String.join_cons, questions]

/-- The line is text, but not that of a value of the type. -/
def Rejects (ty : Ty) (line : List UInt8) : Prop :=
  ∃ text, String.fromUTF8? ⟨line.toArray⟩ = some text ∧ Value.ofInput? ty text.toList = none

/-- One read: the type that it asked for, the lines that it took, its answer, and what it
wrote to the prompt. -/
structure Call where
  asked : Ty
  taken : List (List UInt8)
  answer : Except InputError Value
  shown : String

/-- How a read ends that leaves some lines. Before the line that ends it there are only
rejected ones. -/
inductive Call.Ends : Call → List (List UInt8) → Prop
  | value {ty : Ty} {skipped left : List (List UInt8)} {line : List UInt8} {text : String}
      {v : Value} : (∀ other ∈ skipped, Rejects ty other) →
      String.fromUTF8? ⟨line.toArray⟩ = some text → Value.ofInput? ty text.toList = some v →
      v.ty = ty →
      Ends ⟨ty, skipped ++ [line], .ok v, questions ty (skipped ++ [line]).length⟩ left
  | undecoded {ty : Ty} {skipped left : List (List UInt8)} {line : List UInt8} :
      (∀ other ∈ skipped, Rejects ty other) → String.fromUTF8? ⟨line.toArray⟩ = none →
      Ends ⟨ty, skipped ++ [line], .error (.broken "stream did not contain valid UTF-8"),
        questions ty (skipped ++ [line]).length⟩ left
  | closed {ty : Ty} {skipped : List (List UInt8)} : (∀ other ∈ skipped, Rejects ty other) →
      Ends ⟨ty, skipped, .error (.closed ty), questions ty (skipped.length + 1)⟩ []

/-- Reads one after the other on the same lines, up to where `last` are left. -/
inductive Calls : List (List UInt8) → List Call → List (List UInt8) → Prop
  | nil {lines : List (List UInt8)} : Calls lines [] lines
  | cons {call : Call} {left last : List (List UInt8)} {calls : List Call} :
      call.Ends left → Calls left calls last → Calls (call.taken ++ left) (call :: calls) last

/-- The read that takes one more line first. -/
def Call.after (line : List UInt8) (call : Call) : Call :=
  { call with taken := line :: call.taken, shown := Prompt.question call.asked ++ call.shown }

theorem Call.Ends.after {call : Call} {left : List (List UInt8)} {line : List UInt8}
    (ends : call.Ends left) (rejects : Rejects call.asked line) : (call.after line).Ends left := by
  cases ends with
  | @value ty skipped left last text v inside decoded read typed =>
      have whole : Call.Ends ⟨ty, _, _, _⟩ left :=
        .value (List.forall_mem_cons.mpr ⟨rejects, inside⟩) decoded read typed
      rwa [List.cons_append, List.length_cons, questions_succ] at whole
  | @undecoded ty skipped left last inside broken =>
      have whole : Call.Ends ⟨ty, _, _, _⟩ left :=
        .undecoded (List.forall_mem_cons.mpr ⟨rejects, inside⟩) broken
      rwa [List.cons_append, List.length_cons, questions_succ] at whole
  | @closed ty skipped inside =>
      have whole : Call.Ends ⟨ty, _, _, _⟩ [] :=
        .closed (List.forall_mem_cons.mpr ⟨rejects, inside⟩)
      rwa [List.length_cons, questions_succ] at whole

/-- With a prompt that takes everything, a read takes lines up to one that ends it. -/
theorem readLines_ends (ty : Ty) (lines : List (List UInt8)) {prompt : Prompt}
    (ample : prompt.room = none) :
    ∃ (call : Call) (left : _), call.asked = ty ∧ call.Ends left ∧ lines = call.taken ++ left ∧
      readLines ty lines prompt =
        (call.answer, ⟨left, { prompt with written := prompt.written ++ call.shown }⟩) := by
  induction lines generalizing prompt with
  | nil =>
      refine ⟨⟨ty, [], .error (.closed ty), questions ty 1⟩, [], rfl, .closed nofun, rfl, ?_⟩
      rw [readLines, write_of_ample ample]
      rfl
  | cons line rest ih =>
      have unskipped : ∀ other ∈ ([] : List (List UInt8)), Rejects ty other :=
        List.forall_mem_nil _
      cases decoded : String.fromUTF8? ⟨line.toArray⟩ with
      | none =>
          refine ⟨_, rest, rfl, .undecoded unskipped decoded, rfl, ?_⟩
          simp only [readLines, write_of_ample ample, decoded]
          rfl
      | some text =>
          cases read : Value.ofInput? ty text.toList with
          | some v =>
              have typed := Value.ty_of_ofInput? read
              refine ⟨_, rest, rfl, .value unskipped decoded read typed, rfl, ?_⟩
              simp only [readLines, write_of_ample ample, decoded, read]
              rfl
          | none =>
              have ample' : ({ prompt with written := prompt.written ++ Prompt.question ty } :
                Prompt).room = none := ample
              obtain ⟨call, left, rfl, ends, taken, same⟩ := ih ample'
              refine ⟨call.after line, left, rfl, ends.after ⟨text, decoded, read⟩, ?_, ?_⟩
              · rw [taken]
                rfl
              · simp only [readLines, write_of_ample ample, decoded, read, same, Call.after,
                  String.append_assoc]

/-- Reads one after the other take the lines one after the other. -/
theorem readAll_calls (tys : List Ty) (input : LineInput) (ample : input.prompt.room = none) :
    ∃ calls last, Calls input.lines calls last ∧ calls.map Call.asked = tys ∧
      InputSource.readAll tys input = (calls.map Call.answer, ⟨last, { input.prompt with
        written := input.prompt.written ++ String.join (calls.map Call.shown) }⟩) := by
  induction tys generalizing input with
  | nil => exact ⟨[], input.lines, .nil, rfl, by simp [InputSource.readAll]⟩
  | cons ty tys ih =>
      obtain ⟨lines, prompt⟩ := input
      obtain ⟨call, left, asked, ends, rfl, same⟩ := readLines_ends ty lines ample
      obtain ⟨calls, last, others, askedAll, sameAll⟩ := ih ⟨left, { prompt with
        written := prompt.written ++ call.shown }⟩ ample
      refine ⟨call :: calls, last, .cons ends others, by simp [asked, askedAll], ?_⟩
      have first : InputSource.read ty (⟨call.taken ++ left, prompt⟩ : LineInput) = _ := same
      simp only [InputSource.readAll, first, sameAll, List.map_cons, String.join_cons,
        String.append_assoc]

theorem Calls.flatten {lines last : List (List UInt8)} {calls : List Call}
    (run : Calls lines calls last) : lines = (calls.map Call.taken).flatten ++ last := by
  induction run with
  | nil => rfl
  | cons _ _ ih => rw [List.map_cons, List.flatten_cons, List.append_assoc, ← ih]

/-- Reads from a stream neither lose nor repeat a line. The lines of the stream are those
that the reads take, one read after the other, and those that are left; each read ends as
it has to after the lines that it takes, and asks for every one of them. -/
theorem readAll_consumes_lines (bytes : List UInt8) (tys : List Ty) (prompt : Prompt)
    (ample : prompt.room = none) :
    ∃ lines calls last, Text.Cut (· == 10) bytes lines ∧
      Calls lines calls last ∧ lines = (calls.map Call.taken).flatten ++ last ∧
      calls.map Call.asked = tys ∧
      InputSource.readAll tys (ofBytes bytes prompt) = (calls.map Call.answer, ⟨last, { prompt with
        written := prompt.written ++ String.join (calls.map Call.shown) }⟩) := by
  obtain ⟨calls, last, run, asked, same⟩ := readAll_calls tys (ofBytes bytes prompt) ample
  exact ⟨_, calls, last, Text.cut_cutAfter _ bytes, run, run.flatten, asked, same⟩

/-- A word, a line with a byte that is no text, and a truth value without a newline behind
it. -/
def mixedStream : List UInt8 := Text.bytes "no\n" ++ [255, 10] ++ Text.bytes " true"

/-- The first read passes over the word and breaks off at the second line, the next one
takes the last line, and the third one finds the end. So the first one asks twice, and the
others once each. -/
theorem mixedStream_consumed :
    ∃ lines calls last, Text.Cut (· == 10) mixedStream lines ∧ Calls lines calls last ∧
      calls.map Call.asked = [.num, .bool, .num] ∧
      calls.map Call.answer = [.error (.broken "stream did not contain valid UTF-8"),
        .ok (.bool true), .error (.closed .num)] ∧
      String.join (calls.map Call.shown) =
        "Enter a value of type num. Enter a value of type num. " ++
          "Enter a value of type bool. Enter a value of type num. " := by
  obtain ⟨lines, calls, last, cut, run, -, asked, same⟩ :=
    readAll_consumes_lines mixedStream [.num, .bool, .num] .unbounded rfl
  refine ⟨lines, calls, last, cut, run, asked, ?_, ?_⟩
  · have answers := congrArg Prod.fst same
    rw [show calls.map Call.answer = _ from answers.symm]
    decide +kernel
  · have written := congrArg (·.2.prompt.written) same
    simp only [Prompt.unbounded, String.empty_append] at written
    rw [← written]
    decide +kernel

end LineInput
end Scriptlet
