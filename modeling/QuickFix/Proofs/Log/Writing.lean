import QuickFix.Proofs.Log.Mirroring

/-!
# Writers at one buffer

Lines are pushed to a buffer one by one while any number of writers are open for it, each fed its bytes in
pieces, with what the others do in between. A writer pushes its lines when it is closed.

* `pushed`: the lines that a sequence of uses pushes, told from the uses alone;
* `Shared.Follows.perform`: one use keeps the buffer and the writers in step with that;
* `last_pushed`: the last lines of the buffer are the last ones that were pushed.
-/

namespace QuickFix.Log.Buffer

/-- What is done with a buffer and the writers for it, which go by number. -/
inductive Use where
  /-- Push a line. -/
  | push (line : Text)
  /-- Feed some bytes to a writer. -/
  | write (k : Nat) (bytes : List UInt8)
  /-- Close a writer. Its number then belongs to a new one. -/
  | close (k : Nat)
  deriving DecidableEq

/-- A buffer and the writers for it. -/
structure Shared where
  buffer : Buffer
  writers : Nat → Writer

/-- A buffer without lines, nothing written to any writer. -/
def Shared.empty (capacity : Nat) : Shared := ⟨.empty capacity, fun _ => .empty⟩

namespace Use

/-- The buffer and the writers after a use. -/
def perform (s : Shared) : Use → Shared
  | .push line => { s with buffer := s.buffer.push line }
  | .write k bytes => { s with writers := Function.update s.writers k ((s.writers k).write bytes) }
  | .close k => ⟨(s.writers k).close s.buffer, Function.update s.writers k .empty⟩

/-- The bytes that a use feeds to writer `k`. -/
def bytesFor (k : Nat) : Use → List UInt8
  | .push _ => []
  | .write j bytes => if j = k then bytes else []
  | .close _ => []

end Use

/-! ## Lines pushed by uses -/

/-- The bytes fed to writer `k`, one piece after the other, since a writer of that number was last
closed. -/
def fed (k : Nat) (past : List Use) : List UInt8 :=
  (past.rtakeWhile (· ≠ Use.close k)).flatMap (Use.bytesFor k)

/-- The lines that a use pushes after the uses `past`. -/
def pushedBy (past : List Use) : Use → List Text
  | .push line => [line]
  | .write _ _ => []
  | .close k => linesOf (Text.decode (fed k past))

/-- The lines that uses push, one use after the other, after the uses `past`. -/
def pushedFrom (past : List Use) : List Use → List Text
  | [] => []
  | u :: us => pushedBy past u ++ pushedFrom (past ++ [u]) us

/-- All lines that uses push. -/
def pushed (uses : List Use) : List Text := pushedFrom [] uses

theorem fed_concat_close (k : Nat) (past : List Use) : fed k (past ++ [.close k]) = [] := by
  rw [fed, List.rtakeWhile_concat_neg _ _ _ (by simp)]
  rfl

theorem fed_concat {k : Nat} {u : Use} (hu : u ≠ .close k) (past : List Use) :
    fed k (past ++ [u]) = fed k past ++ u.bytesFor k := by
  rw [fed, List.rtakeWhile_concat_pos _ _ _ (by simpa using hu), List.flatMap_append,
    List.flatMap_singleton, fed]

/-! ## Steps and runs -/

/-- A buffer gives as many of the last lines as it is asked for and has room for. -/
theorem Keeps.last_eq_min {b : Buffer} {history : List Text} (h : b.Keeps history) (n : Nat) :
    b.last n = history.rtake (min n b.capacity) := by
  rw [h.last_eq, List.rtake, List.rtake, List.rtake, List.length_drop, List.drop_drop]
  exact congrArg (List.drop · history) (by omega)

namespace Shared

/-- The buffer has the capacity asked for and holds the last of the lines pushed by the uses `past`, and
each writer holds the bytes it was fed. -/
structure Follows (s : Shared) (capacity : Nat) (past : List Use) (history : List Text) : Prop where
  capacity_eq : s.buffer.capacity = max capacity 1
  keeps : s.buffer.Keeps history
  bytes_eq (k : Nat) : (s.writers k).bytes = fed k past

namespace Follows

variable {s : Shared} {capacity : Nat} {past : List Use} {history : List Text}

theorem empty (capacity : Nat) : (Shared.empty capacity).Follows capacity [] [] where
  capacity_eq := rfl
  keeps := .empty capacity
  bytes_eq _ := rfl

/-- One use keeps the buffer and the writers in step. -/
theorem perform (h : s.Follows capacity past history) (u : Use) :
    (u.perform s).Follows capacity (past ++ [u]) (history ++ pushedBy past u) := by
  cases u with
  | push line => exact {
      capacity_eq := h.capacity_eq
      keeps := h.keeps.push line
      bytes_eq := fun k => by
        rw [fed_concat (by simp), Use.bytesFor, List.append_nil]
        exact h.bytes_eq k }
  | write k bytes => exact {
      capacity_eq := h.capacity_eq
      keeps := by
        rw [pushedBy, List.append_nil]
        exact h.keeps
      bytes_eq := fun j => by
        rw [fed_concat (by simp), ← h.bytes_eq j]
        rcases eq_or_ne k j with rfl | hkj
        · simp [Use.perform, Use.bytesFor, Writer.write]
        · simp [Use.perform, Use.bytesFor, hkj, hkj.symm] }
  | close k => exact {
      capacity_eq := (capacity_foldl_push _ s.buffer).trans h.capacity_eq
      keeps := by
        rw [pushedBy, ← h.bytes_eq k]
        exact h.keeps.foldl_push _
      bytes_eq := fun j => by
        rcases eq_or_ne k j with rfl | hkj
        · rw [fed_concat_close]
          simp [Use.perform, Writer.empty]
        · rw [fed_concat (by simpa using hkj), Use.bytesFor, List.append_nil, ← h.bytes_eq j]
          simp [Use.perform, hkj.symm] }

theorem foldl_perform (h : s.Follows capacity past history) (uses : List Use) :
    (uses.foldl Use.perform s).Follows capacity (past ++ uses)
      (history ++ pushedFrom past uses) := by
  induction uses generalizing s past history with
  | nil => simpa [pushedFrom] using h
  | cons u us ih => simpa [pushedFrom] using ih (h.perform u)

end Follows

end Shared

/-- Whatever was done with a buffer and its writers, the last `n` lines of the buffer are the last `n` of
all that were pushed, or the last as many as it has room for. -/
theorem last_pushed (capacity : Nat) (uses : List Use) (n : Nat) :
    (uses.foldl Use.perform (Shared.empty capacity)).buffer.last n =
      (pushed uses).rtake (min n (max capacity 1)) := by
  have h := (Shared.Follows.empty capacity).foldl_perform uses
  rw [h.keeps.last_eq_min, h.capacity_eq, List.nil_append, pushed]

/-- Two writers in turn at a buffer with room for three lines, one fed the halves of a character, the
other those of a line break. -/
theorem last_pushed_in_turn :
    let uses : List Use := [.write 0 [0x61, 0xC3], .write 1 [0x62, 0x0D], .push "c",
      .write 1 [0x0A, 0x0A, 0x64], .write 0 [0xA9], .close 1, .close 0, .close 0]
    pushed uses = [("c" : Text), ("b" : Text), ("d" : Text), ("aé" : Text)] ∧
      (uses.foldl Use.perform (Shared.empty 3)).buffer.last 5 =
        [("b" : Text), ("d" : Text), ("aé" : Text)] := by
  intro uses
  have hpushed : pushed uses = [("c" : Text), ("b" : Text), ("d" : Text), ("aé" : Text)] := by
    decide +kernel
  refine ⟨hpushed, ?_⟩
  rw [last_pushed, hpushed]
  rfl

end QuickFix.Log.Buffer
