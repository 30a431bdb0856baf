import Mathlib.Data.List.Basic

/-!
# Python string splitting and joining

`str.split(sep)` and `sep.join(parts)` for a one-character separator, over character lists.
Key paths (`'/'`), dotted IPv4 text (`'.'`) and POSIX paths (`'/'`) are all read and written
through this pair, and each of their round trips comes down to `splitOn_joinWith`.
-/

namespace Provisioner

/-- `s.split(sep)`: every separator ends a part, so the result is never empty and keeps empty
parts (`"a..b".split('.') == ['a', '', 'b']`). -/
def splitOn (sep : Char) : List Char → List (List Char)
  | [] => [[]]
  | c :: cs =>
      if c = sep then [] :: splitOn sep cs
      else
        match splitOn sep cs with
        | [] => [[c]]
        | p :: ps => (c :: p) :: ps

/-- `sep.join(parts)`. -/
def joinWith (sep : Char) : List (List Char) → List Char
  | [] => []
  | [p] => p
  | p :: q :: ps => p ++ sep :: joinWith sep (q :: ps)

theorem splitOn_of_not_mem {sep : Char} {s : List Char} (h : sep ∉ s) : splitOn sep s = [s] := by
  induction s with
  | nil => rfl
  | cons c cs ih =>
      have hc : c ≠ sep := fun hc => h (hc ▸ List.mem_cons_self c cs)
      simp only [splitOn, if_neg hc, ih (fun hm => h (List.mem_cons_of_mem c hm))]

theorem splitOn_append_sep {sep : Char} {p : List Char} (h : sep ∉ p) (rest : List Char) :
    splitOn sep (p ++ sep :: rest) = p :: splitOn sep rest := by
  induction p with
  | nil => simp [splitOn]
  | cons c cs ih =>
      have hc : c ≠ sep := fun hc => h (hc ▸ List.mem_cons_self c cs)
      rw [List.cons_append, splitOn, if_neg hc, ih (fun hm => h (List.mem_cons_of_mem c hm))]

theorem splitOn_joinWith {sep : Char} {parts : List (List Char)} (hne : parts ≠ [])
    (h : ∀ p ∈ parts, sep ∉ p) : splitOn sep (joinWith sep parts) = parts := by
  induction parts with
  | nil => exact absurd rfl hne
  | cons p ps ih =>
      cases ps with
      | nil => exact splitOn_of_not_mem (h p (List.mem_singleton_self p))
      | cons q qs =>
          rw [joinWith, splitOn_append_sep (h p (List.mem_cons_self p _)),
            ih (List.cons_ne_nil q qs) (fun r hr => h r (List.mem_cons_of_mem p hr))]

theorem not_mem_of_mem_splitOn {sep : Char} {s p : List Char} (hp : p ∈ splitOn sep s) :
    sep ∉ p := by
  induction s generalizing p with
  | nil => simp_all [splitOn]
  | cons c cs ih =>
      unfold splitOn at hp
      split at hp
      · rcases List.mem_cons.mp hp with rfl | hp
        · simp
        · exact ih hp
      · rename_i hc
        split at hp
        · rw [List.mem_singleton.mp hp]
          exact fun h => hc (List.mem_singleton.mp h).symm
        · rename_i q qs hq
          rcases List.mem_cons.mp hp with rfl | hp
          · have := ih (hq ▸ List.mem_cons_self q qs)
            simp [this, Ne.symm hc]
          · exact ih (hq ▸ List.mem_cons_of_mem q hp)

end Provisioner
