import Mathlib.Data.List.Induction
import Mathlib.Data.List.TakeWhile

/-! Questions about a log of reports: what its latest report on a subject report,
and what it holds from the first report of some kind on. -/

namespace ShowdownCli.Library.Log

universe u v
variable {ε : Type u} {β : Type v}

def latest (report : ε → Option β) (log : List ε) : Option β := log.reverse.findSome? report

theorem latest_concat (report : ε → Option β) (log : List ε) (entry : ε) :
    latest report (log ++ [entry]) = (report entry).or (latest report log) := by
  simp only [latest, List.reverse_append, List.reverse_singleton, List.singleton_append, List.findSome?_cons]
  cases report entry <;> rfl

theorem filterMap_concat (report : ε → Option β) (log : List ε) (entry : ε) :
    (log ++ [entry]).filterMap report = log.filterMap report ++ (report entry).toList := by
  rw [List.filterMap_append]
  cases made : report entry <;> simp [made]

/-- The log from its first entry of a kind on. -/
def since (starts : ε → Bool) (log : List ε) : List ε := log.dropWhile fun entry => !starts entry

theorem since_concat (starts : ε → Bool) (log : List ε) (entry : ε) :
    since starts (log ++ [entry]) =
      if log.any starts then since starts log ++ [entry] else if starts entry then [entry] else [] := by
  induction log with
  | nil => cases start : starts entry <;> simp [since, start]
  | cons first rest ih =>
    cases start : starts first with
    | true => simp [since, start]
    | false =>
      have later := ih
      simp only [since, List.cons_append, List.dropWhile_cons, start, Bool.not_false, if_true, List.any_cons,
        Bool.false_or] at later ⊢
      exact later

theorem since_nil {starts : ε → Bool} {log : List ε} : since starts log = [] ↔ ∀ entry ∈ log, starts entry = false := by
  simp [since, List.dropWhile_eq_nil_iff]

theorem since_split {starts : ε → Bool} {log rest : List ε} {first : ε} (from_ : since starts log = first :: rest) :
    ∃ before, log = before ++ first :: rest ∧ (∀ entry ∈ before, starts entry = false) ∧ starts first = true := by
  refine ⟨log.takeWhile fun entry => !starts entry, ?_, ?_, ?_⟩
  · rw [← from_, since, List.takeWhile_append_dropWhile]
  · intro entry member
    simpa using List.mem_takeWhile_imp member
  · have same : log.dropWhile (fun entry => !starts entry) = first :: rest := from_
    have here := List.head_dropWhile_not (fun entry => !starts entry) (by rw [same]; simp)
    simpa [same] using here

end ShowdownCli.Library.Log
