import Kdump.Global

/-!
# Descriptor — writing all of a buffer to a pipe

`write()` may take less than it is offered, and the program calls it until everything is taken.
Its answers are given as a list; when the list is used up, it takes whatever it is offered.
-/

namespace Kdump
namespace Transfer

/-- An answer of `write()`: the number of bytes it takes if that many are offered, or `errno`. -/
abbrev WriteAnswer := Except Errno Nat

/-- How writing a buffer ends, the answers that are left, and the bytes that were taken. -/
structure Written where
  result : Except Errno Unit
  answers : List WriteAnswer
  taken : ByteVector

/-- `while (buflen) { len = write(fd, bufp, buflen); .. }` -/
def writeFully : List WriteAnswer → ByteVector → Written
  | [], buf => ⟨.ok (), [], buf⟩
  | answer :: answers, buf =>
      if buf = [] then ⟨.ok (), answer :: answers, []⟩
      else
        match answer with
        | .error errno => ⟨.error errno, answers, []⟩
        | .ok len =>
            let more := writeFully answers (buf.drop len)
            { more with taken := buf.take len ++ more.taken }

/-- If no call fails, the bytes that were taken are those of the buffer. -/
theorem writeFully_taken : ∀ (answers : List WriteAnswer) (buf : ByteVector),
    (writeFully answers buf).result = .ok () → (writeFully answers buf).taken = buf := by
  intro answers
  induction answers with
  | nil => intro buf _; rfl
  | cons answer answers ih =>
      intro buf hok
      unfold writeFully at hok ⊢
      split_ifs with hnil
      · exact hnil.symm
      · rw [if_neg hnil] at hok
        cases answer with
        | error errno => cases hok
        | ok len =>
            dsimp only at hok ⊢
            rw [ih _ hok, List.take_append_drop]

/-- No call of `write()` fails. -/
def NoErrors (answers : List WriteAnswer) : Prop :=
  ∀ errno, .error errno ∉ answers

/-- Then everything is taken, and no later call fails either. -/
theorem writeFully_ok : ∀ (answers : List WriteAnswer) (buf : ByteVector), NoErrors answers →
    (writeFully answers buf).result = .ok () ∧ NoErrors (writeFully answers buf).answers := by
  intro answers
  induction answers with
  | nil => exact fun buf h => ⟨rfl, h⟩
  | cons answer answers ih =>
      intro buf h
      unfold writeFully
      split_ifs
      · exact ⟨rfl, h⟩
      · cases answer with
        | error errno => exact (h errno List.mem_cons_self).elim
        | ok len => exact ih _ fun errno hmem => h errno (List.mem_cons_of_mem _ hmem)

end Transfer
end Kdump
