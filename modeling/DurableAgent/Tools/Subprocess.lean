import Mathlib.Data.List.Flatten
import Mathlib.Tactic.Common

/-!
# The output of a command

A pipe is read to its end, in whatever chunks it comes, and the bytes beyond a maximum are dropped.
What is recorded of it is the same for all ways in which it may come.
-/

namespace DurableAgent.Tools

abbrev Bytes := List UInt8

/-- A pipe: the chunks that the reads to come return, none of them empty. -/
abbrev StreamReader := List Bytes

/-- The local variables of `_read_bounded`. -/
structure Reading where
  chunks : List Bytes := []
  stored : Nat := 0
  truncated : Bool := false

/-- The body of the loop of `_read_bounded` -/
def Reading.store (maximumOutput : Nat) (r : Reading) (chunk : Bytes) : Reading :=
  let remaining := maximumOutput - r.stored
  let kept := if 0 < remaining then
      { r with
        chunks := r.chunks ++ [chunk.take remaining]
        stored := r.stored + min chunk.length remaining }
    else r
  if remaining < chunk.length then { kept with truncated := true } else kept

/-- The loop of `_read_bounded`, with what it leaves in the pipe; an empty chunk is the end. -/
def readLoop (maximumOutput : Nat) (r : Reading) : StreamReader → Reading × StreamReader
  | [] => (r, [])
  | chunk :: rest =>
    if chunk = [] then (r, rest) else readLoop maximumOutput (r.store maximumOutput chunk) rest

/-- `_read_bounded` -/
def readBounded (maximumOutput : Nat) : Option StreamReader → (Bytes × Bool) × StreamReader
  | none => (([], false), [])
  | some stream =>
    let (r, rest) := readLoop maximumOutput {} stream
    ((r.chunks.flatten, r.truncated), rest)

variable {maximumOutput : Nat} {r : Reading} {stream stream' : StreamReader}

/-! ## One chunk -/

/-- The loop has read these bytes. -/
structure HasRead (maximumOutput : Nat) (bytes : Bytes) (r : Reading) : Prop where
  chunks : r.chunks.flatten = bytes.take maximumOutput
  stored : r.stored = min bytes.length maximumOutput
  truncated : r.truncated = decide (maximumOutput < bytes.length)

theorem hasRead_nil : HasRead maximumOutput [] {} := by
  constructor <;> simp

theorem HasRead.store {bytes : Bytes} (h : HasRead maximumOutput bytes r) (chunk : Bytes) :
    HasRead maximumOutput (bytes ++ chunk) (r.store maximumOutput chunk) := by
  have hremaining : maximumOutput - r.stored = maximumOutput - bytes.length := by
    rw [h.stored]
    omega
  have htake : (bytes ++ chunk).take maximumOutput =
      bytes.take maximumOutput ++ chunk.take (maximumOutput - bytes.length) := List.take_append
  unfold Reading.store
  dsimp only
  rw [hremaining]
  by_cases hroom : 0 < maximumOutput - bytes.length
  · rw [if_pos hroom]
    have hfits : ¬ maximumOutput < bytes.length := by omega
    by_cases hlong : maximumOutput - bytes.length < chunk.length
    · rw [if_pos hlong]
      constructor
      · simp [h.chunks, htake]
      · simp only [h.stored, List.length_append]
        omega
      · simp only [List.length_append]
        exact (decide_eq_true (by omega)).symm
    · rw [if_neg hlong]
      constructor
      · simp [h.chunks, htake]
      · simp only [h.stored, List.length_append]
        omega
      · rw [h.truncated]
        simp only [List.length_append, decide_eq_decide]
        omega
  · -- nothing more is stored; a chunk that is not empty goes beyond the maximum
    rw [if_neg hroom]
    have hzero : maximumOutput - bytes.length = 0 := by omega
    by_cases hlong : maximumOutput - bytes.length < chunk.length
    · rw [if_pos hlong]
      constructor
      · rw [htake, hzero, List.take_zero, List.append_nil]
        exact h.chunks
      · simp only [h.stored, List.length_append]
        omega
      · simp only [List.length_append]
        exact (decide_eq_true (by omega)).symm
    · rw [if_neg hlong]
      have hempty : chunk = [] := List.eq_nil_of_length_eq_zero (by omega)
      rw [hempty, List.append_nil]
      exact h

/-! ## A whole pipe -/

theorem HasRead.readLoop {bytes : Bytes} (h : HasRead maximumOutput bytes r)
    (hstream : ∀ chunk ∈ stream, chunk ≠ []) :
    HasRead maximumOutput (bytes ++ stream.flatten) (readLoop maximumOutput r stream).1 ∧
      (Tools.readLoop maximumOutput r stream).2 = [] := by
  induction stream generalizing bytes r with
  | nil => simpa [Tools.readLoop] using h
  | cons chunk rest ih =>
    have hrest := ih (h.store chunk) fun other hother =>
      hstream other (List.mem_cons_of_mem chunk hother)
    rw [Tools.readLoop, if_neg (hstream chunk List.mem_cons_self), List.flatten_cons,
      ← List.append_assoc]
    exact hrest

theorem readBounded_some (maximumOutput : Nat) {stream : StreamReader}
    (hstream : ∀ chunk ∈ stream, chunk ≠ []) :
    readBounded maximumOutput (some stream) =
      ((stream.flatten.take maximumOutput, decide (maximumOutput < stream.flatten.length)),
        []) := by
  obtain ⟨hread, hrest⟩ := (@hasRead_nil maximumOutput).readLoop hstream
  rw [List.nil_append] at hread
  unfold readBounded
  dsimp only
  rw [hread.chunks, hread.truncated, hrest]

/-- The whole pipe is read, and its first bytes are returned, however it comes in chunks. -/
theorem readBounded_eq (maximumOutput : Nat) (bytes : Bytes) (stream : StreamReader)
    (hsplit : stream.flatten = bytes) (hstream : ∀ chunk ∈ stream, chunk ≠ []) :
    readBounded maximumOutput (some stream) =
      ((bytes.take maximumOutput, decide (maximumOutput < bytes.length)), []) := by
  rw [← hsplit]
  exact readBounded_some maximumOutput hstream

/-- The maximum is reached at the end of a chunk, and nothing follows. -/
theorem readBounded_three : [[1, 2], [3]].flatten = ([1, 2, 3] : Bytes) ∧
    readBounded 3 (some [[1, 2], [3]]) = (([1, 2, 3], false), []) :=
  ⟨rfl, readBounded_eq 3 [1, 2, 3] [[1, 2], [3]] rfl (by decide)⟩

/-! ## The result of a command -/

/-- What `execute` returns of the two pipes of a command. -/
structure CommandOutput where
  stdout : String
  stderr : String
  truncated : Bool
  deriving DecidableEq

/-- The end of `execute`, given how bytes are decoded. -/
def commandOutput (decode : Bytes → String) (maximumOutput : Nat)
    (stdout stderr : Option StreamReader) : CommandOutput :=
  let out := (readBounded maximumOutput stdout).1
  let err := (readBounded maximumOutput stderr).1
  { stdout := decode out.1, stderr := decode err.1, truncated := out.2 || err.2 }

/-- The output of a command does not depend on when its bytes arrive. -/
theorem commandOutput_congr (decode : Bytes → String) (maximumOutput : Nat)
    {out out' err err' : StreamReader} (hout : out.flatten = out'.flatten)
    (herr : err.flatten = err'.flatten)
    (hchunks : ∀ chunk ∈ out ++ out' ++ err ++ err', chunk ≠ []) :
    commandOutput decode maximumOutput (some out) (some err) =
      commandOutput decode maximumOutput (some out') (some err') := by
  unfold commandOutput
  rw [readBounded_some maximumOutput fun chunk h => hchunks chunk (by simp [h]),
    readBounded_some maximumOutput fun chunk h => hchunks chunk (by simp [h]),
    readBounded_some maximumOutput fun chunk h => hchunks chunk (by simp [h]),
    readBounded_some maximumOutput fun chunk h => hchunks chunk (by simp [h]), hout, herr]

end DurableAgent.Tools
