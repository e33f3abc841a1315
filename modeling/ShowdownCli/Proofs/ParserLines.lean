import ShowdownCli.Parser

/-! The two uses of `split`. Both cut at every delimiter and then drop at most one
carriage return from each piece. -/

namespace ShowdownCli

theorem splitFrom_eq (delim : Char) (token s : List Char) :
    splitFrom delim token s = ((s.splitOn delim).modifyHead (token ++ ·)).map stripReturn := by
  induction s generalizing token with
  | nil => simp [splitFrom]
  | cons c rest ih =>
    rw [splitFrom, List.splitOn_cons_eq_if_modifyHead]
    by_cases here : c = delim
    · have unchanged (pieces : List (List Char)) : pieces.modifyHead ([] ++ ·) = pieces := by
        cases pieces <;> rfl
      rw [if_pos here, ih, unchanged, if_pos (by simpa using here)]
      simp
    · rw [if_neg here, ih, if_neg (by simpa using here), List.modifyHead_modifyHead]
      congr 2
      funext piece
      simp

theorem split_eq (s : List Char) (delim : Char) : split s delim = (s.splitOn delim).map stripReturn := by
  rw [split, splitFrom_eq]
  congr 1
  cases s.splitOn delim <;> rfl

end ShowdownCli
