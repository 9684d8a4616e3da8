import Mathlib.Data.List.Range
import Mathlib.Data.List.Chain
import Mathlib.Tactic.Linarith
import Mathlib.Tactic.Ring
import Mathlib.Data.Rat.Floor

/-! `chunks` of `system_epoch_detector.py`: a block range cut into epochs.

The generator walks Python's `range(start_idx, stop_idx + 1, n)`; `pyRange` is that
range with CPython's length, so the model is exact for every integer bound and step.
-/

set_option autoImplicit false

namespace Pooler

/-- The length CPython gives `range(start, stop, step)` for a nonzero step. -/
def rangeLength (start stop step : Int) : Nat :=
  if 0 < step then ((stop - start + step - 1) / step).toNat
  else ((start - stop - step - 1) / -step).toNat

/-- `range(start, stop, step)`; `none` is the `ValueError` of a zero step. -/
def pyRange (start stop step : Int) : Option (List Int) :=
  if step = 0 then none
  else some ((List.range (rangeLength start stop step)).map fun j : Nat => start + j * step)

/-- The body of the `for` loop in `chunks`, from `run_idx` on, over the range values left. -/
def chunksFrom (stopIdx n : Int) (runIdx : Nat) : List Int → List (Int × Int × Nat)
  | [] => []
  | i :: rest =>
    if i = stopIdx + 1 then []
    else (i, if i + n - 1 ≤ stopIdx then i + n - 1 else stopIdx, runIdx + 1) ::
      chunksFrom stopIdx n (runIdx + 1) rest

/-- `chunks(start_idx, stop_idx, n)`: the triples `(begin_idx, end_idx, run_idx)` it yields. -/
def chunks (startIdx stopIdx n : Int) : Option (List (Int × Int × Nat)) :=
  (pyRange startIdx (stopIdx + 1) n).map (chunksFrom stopIdx n 0)

/-- The `j`-th triple the generator yields when the early return is not taken. -/
def chunkAt (startIdx stopIdx n : Int) (j : Nat) : Int × Int × Nat :=
  let i := startIdx + j * n
  (i, if i + n - 1 ≤ stopIdx then i + n - 1 else stopIdx, j + 1)

section
variable {startIdx stopIdx n : Int}

theorem lt_rangeLength_iff (hn : 0 < n) (start stop : Int) (j : Nat) :
    j < rangeLength start stop n ↔ start + j * n < stop := by
  rw [rangeLength, if_pos hn, Int.lt_toNat, Int.lt_iff_add_one_le, Int.le_ediv_iff_mul_le hn]
  constructor <;> intro h <;> linarith

theorem chunksFrom_range' (g : Nat → Int) (hg : ∀ j, g j = startIdx + j * n) :
    ∀ (a k : Nat), (∀ j, a ≤ j → j < a + k → g j < stopIdx + 1) →
      chunksFrom stopIdx n a ((List.range' a k).map g) =
        (List.range' a k).map (chunkAt startIdx stopIdx n)
  | _, 0, _ => rfl
  | a, k + 1, hlt => by
    have ha := hlt a le_rfl (by omega)
    have rest := chunksFrom_range' g hg (a + 1) k (fun j h1 h2 => hlt j (by omega) (by omega))
    simp only [List.range'_succ, List.map_cons, chunksFrom, rest, chunkAt, ← hg]
    rw [if_neg (by omega)]

/-- With a positive step the early return is never taken: `chunks` yields `chunkAt j`
for every `j` below the range's length. -/
theorem chunks_eq (hn : 0 < n) :
    chunks startIdx stopIdx n =
      some ((List.range (rangeLength startIdx (stopIdx + 1) n)).map (chunkAt startIdx stopIdx n)) := by
  have hlt : ∀ j, 0 ≤ j → j < 0 + rangeLength startIdx (stopIdx + 1) n →
      startIdx + j * n < stopIdx + 1 := fun j _ h =>
    (lt_rangeLength_iff hn _ _ j).mp (by omega)
  simp only [chunks, pyRange, if_neg hn.ne', Option.map_some', List.range_eq_range']
  exact congrArg some (chunksFrom_range' (fun j => startIdx + j * n) (fun _ => rfl) 0 _ hlt)

theorem chunkAt_end_of_succ_lt (hn : 0 < n) {j : Nat}
    (hj : j + 1 < rangeLength startIdx (stopIdx + 1) n) :
    (chunkAt startIdx stopIdx n j).2.1 = startIdx + j * n + n - 1 := by
  have h := (lt_rangeLength_iff hn _ _ _).mp hj
  push_cast at h
  simp only [chunkAt]
  rw [if_pos (by linarith)]

theorem chunkAt_end_of_succ_eq (hn : 0 < n) {j : Nat}
    (hj : j + 1 = rangeLength startIdx (stopIdx + 1) n) :
    (chunkAt startIdx stopIdx n j).2.1 = stopIdx := by
  have h := (lt_rangeLength_iff hn startIdx (stopIdx + 1) (j + 1)).not.mp (by omega)
  push_cast at h
  simp only [chunkAt]
  split <;> linarith

theorem chunkAt_begin_lt (hn : 0 < n) {j : Nat} (hj : j < rangeLength startIdx (stopIdx + 1) n) :
    (chunkAt startIdx stopIdx n j).1 < stopIdx + 1 :=
  (lt_rangeLength_iff hn _ _ _).mp hj

end

/-! ## Tilings of a block range -/

/-- The `(begin, end)` block ranges of a list of chunks. -/
def blockRanges (cs : List (Int × Int × Nat)) : List (Int × Int) := cs.map fun c => (c.1, c.2.1)

/-- Consecutive block ranges from `start` to `stop`, each of `n` blocks but the last,
which has between one and `n`. -/
structure Tiling (ranges : List (Int × Int)) (start stop n : Int) : Prop where
  ne_nil : ranges ≠ []
  head : ∀ x ∈ ranges.head?, x.1 = start
  consecutive : ranges.Chain' fun x y => y.1 = x.2 + 1
  full : ∀ x ∈ ranges.dropLast, x.2 - x.1 + 1 = n
  last : ∀ x ∈ ranges.getLast?, x.2 = stop ∧ 1 ≤ x.2 - x.1 + 1 ∧ x.2 - x.1 + 1 ≤ n

theorem Tiling.cover {start stop n : Int} :
    ∀ {ranges : List (Int × Int)}, Tiling ranges start stop n →
      ∀ h, start ≤ h → h ≤ stop → ∃ x ∈ ranges, x.1 ≤ h ∧ h ≤ x.2
  | [], tiling => absurd rfl tiling.ne_nil
  | [x], tiling => fun h hs ht => by
    have hx := tiling.head x rfl
    have hl := (tiling.last x rfl).1
    exact ⟨x, List.mem_singleton_self x, by omega, by omega⟩
  | x :: y :: rest, tiling => fun h hs ht => by
    have hx := tiling.head x rfl
    obtain ⟨hxy, hchain⟩ := List.chain'_cons.mp tiling.consecutive
    by_cases hle : h ≤ x.2
    · exact ⟨x, List.mem_cons_self _ _, by omega, hle⟩
    · have tail : Tiling (y :: rest) y.1 stop n :=
        ⟨List.cons_ne_nil _ _, fun z hz => by cases hz; rfl, hchain,
          fun z hz => tiling.full z (by simp only [List.dropLast_cons₂]; exact .tail _ hz),
          fun z hz => tiling.last z (by simpa only [List.getLast?_cons_cons] using hz)⟩
      obtain ⟨z, hz, hbounds⟩ := Tiling.cover tail h (by omega) ht
      exact ⟨z, .tail _ hz, hbounds⟩

theorem Tiling.begin_le_end {ranges : List (Int × Int)} {start stop n : Int}
    (tiling : Tiling ranges start stop n) (hn : 0 < n) : ∀ x ∈ ranges, x.1 ≤ x.2 := by
  intro x hx
  rw [← List.dropLast_append_getLast tiling.ne_nil, List.mem_append, List.mem_singleton] at hx
  rcases hx with hx | rfl
  · have := tiling.full x hx
    omega
  · have := (tiling.last _ (List.getLast?_eq_getLast _ tiling.ne_nil)).2.1
    omega

theorem chunks_tiling {startIdx stopIdx n : Int} (hn : 0 < n) (hle : startIdx ≤ stopIdx) :
    ∃ cs, chunks startIdx stopIdx n = some cs ∧ Tiling (blockRanges cs) startIdx stopIdx n := by
  obtain ⟨k, hk⟩ : ∃ k, rangeLength startIdx (stopIdx + 1) n = k + 1 :=
    Nat.exists_eq_succ_of_ne_zero
      (Nat.pos_iff_ne_zero.mp ((lt_rangeLength_iff hn _ _ 0).mpr (by simp; omega)))
  have hend : ∀ m < k, (chunkAt startIdx stopIdx n m).2.1 = startIdx + m * n + n - 1 :=
    fun m hm => chunkAt_end_of_succ_lt hn (by omega)
  have hlastEnd : (chunkAt startIdx stopIdx n k).2.1 = stopIdx := chunkAt_end_of_succ_eq hn hk.symm
  have hlastBegin : (chunkAt startIdx stopIdx n k).1 < stopIdx + 1 := chunkAt_begin_lt hn (by omega)
  have hbeyond := (lt_rangeLength_iff hn startIdx (stopIdx + 1) (k + 1)).not.mp (by omega)
  refine ⟨_, chunks_eq hn, ?_⟩
  simp only [blockRanges, List.map_map, hk]
  refine ⟨by simp, by simp [List.range_succ_eq_map, chunkAt], ?_, ?_, ?_⟩
  · rw [List.chain'_map, List.chain'_range_succ]
    intro m hm
    simp only [Function.comp]
    rw [hend m hm]
    simp only [chunkAt]
    push_cast
    ring
  · intro x hx
    simp only [List.range_succ, List.map_append, List.map_singleton, List.dropLast_concat,
      List.mem_map, List.mem_range] at hx
    obtain ⟨m, hm, rfl⟩ := hx
    simp only [Function.comp]
    rw [hend m hm]
    simp only [chunkAt]
    ring
  · intro x hx
    simp only [List.range_succ, List.map_append, List.map_singleton, List.getLast?_append,
      List.getLast?_singleton, Option.mem_def] at hx
    have hx : x = ((chunkAt startIdx stopIdx n k).1, stopIdx) := by simpa [hlastEnd] using hx.symm
    subst hx
    simp only [chunkAt] at hbeyond hlastBegin ⊢
    push_cast at hbeyond
    exact ⟨trivial, by omega, by linarith⟩

/-- Ceiling division as integer division rounding down: how CPython's `range` and the Lua
batch loops count. -/
theorem ceil_div_eq_ediv {a d : Int} (hd : 0 < d) : ⌈(a : ℚ) / d⌉ = (a + d - 1) / d := by
  have hlow := Int.ediv_mul_le (a + d - 1) hd.ne'
  have hhigh := Int.lt_ediv_add_one_mul_self (a + d - 1) hd
  rw [Int.ceil_eq_iff, lt_div_iff₀ (by exact_mod_cast hd), div_le_iff₀ (by exact_mod_cast hd)]
  constructor
  · exact_mod_cast (by linarith : ((a + d - 1) / d - 1) * d < a)
  · exact_mod_cast (by linarith : a ≤ (a + d - 1) / d * d)

/-- CPython's length of a non-empty range with a positive step is the ceiling of the span
over the step. -/
theorem rangeLength_eq_ceil {start stop n : Int} (hn : 0 < n) (hspan : start < stop) :
    ((rangeLength start stop n : Nat) : Int) = ⌈((stop - start : Int) : ℚ) / n⌉ := by
  rw [rangeLength, if_pos hn, Int.toNat_of_nonneg (Int.ediv_nonneg (by omega) hn.le),
    ceil_div_eq_ediv hn, sub_add_eq_add_sub]

/-- For `start_idx ≤ stop_idx` and `n ≥ 1`: no value of the range reaches the early return,
and the generator yields `⌈(stop_idx - start_idx + 1) / n⌉` triples, numbered from 1, whose
block ranges tile `[start_idx, stop_idx]`. -/
theorem chunks_partition {startIdx stopIdx n : Int} (hle : startIdx ≤ stopIdx) (hn : 1 ≤ n) :
    (∃ values, pyRange startIdx (stopIdx + 1) n = some values ∧ ∀ i ∈ values, i ≠ stopIdx + 1) ∧
    ∃ cs, chunks startIdx stopIdx n = some cs ∧
      (cs.length : Int) = ⌈((stopIdx - startIdx + 1 : Int) : ℚ) / n⌉ ∧
      cs.map (fun c => c.2.2) = List.range' 1 cs.length ∧
      Tiling (blockRanges cs) startIdx stopIdx n := by
  have hn' : 0 < n := by omega
  refine ⟨⟨_, by rw [pyRange, if_neg hn'.ne'], fun i hi => ?_⟩, ?_⟩
  · obtain ⟨j, hj, rfl⟩ := List.mem_map.mp hi
    exact ((lt_rangeLength_iff hn' _ _ j).mp (List.mem_range.mp hj)).ne
  obtain ⟨cs, hcs, tiling⟩ := chunks_tiling hn' hle
  obtain rfl := Option.some.inj ((chunks_eq hn').symm.trans hcs)
  refine ⟨_, hcs, ?_, ?_, tiling⟩
  · rw [List.length_map, List.length_range, rangeLength_eq_ceil hn' (by omega), add_sub_right_comm]
  · simp [chunkAt, List.range'_eq_map_range, add_comm]

/-- The range `[101, 200]` in chunks of 30. -/
theorem chunks_partition_101_200 :
    (∃ values, pyRange 101 (200 + 1) 30 = some values ∧ ∀ i ∈ values, i ≠ 200 + 1) ∧
    ∃ cs, chunks 101 200 30 = some cs ∧
      (cs.length : Int) = ⌈(((200 : Int) - 101 + 1 : Int) : ℚ) / (30 : Int)⌉ ∧
      cs.map (fun c => c.2.2) = List.range' 1 cs.length ∧
      Tiling (blockRanges cs) 101 200 30 :=
  chunks_partition (by decide) (by decide)

theorem chunks_of_neg {startIdx stopIdx n : Int} (hn : n < 0) (hle : startIdx ≤ stopIdx) :
    chunks startIdx stopIdx n = some [] := by
  have hlen : rangeLength startIdx (stopIdx + 1) n = 0 := by
    rw [rangeLength, if_neg (by omega), Int.toNat_eq_zero, ← Int.lt_add_one_iff,
      Int.ediv_lt_iff_lt_mul (by omega)]
    omega
  simp [chunks, pyRange, hlen, hn.ne, chunksFrom]

/-- A block range follows `x` when it starts at most one past `x`'s end and ends no
earlier than `x`. -/
def Follows (x y : Int × Int) : Prop := y.1 ≤ x.2 + 1 ∧ x.2 ≤ y.2

theorem chunks_follow {startIdx stopIdx n : Int} (hle : startIdx ≤ stopIdx)
    {cs : List (Int × Int × Nat)} (hcs : chunks startIdx stopIdx n = some cs) (x : Int × Int)
    (hx : x.2 = startIdx) : (x :: blockRanges cs).Chain' Follows := by
  rcases lt_trichotomy n 0 with hn | rfl | hn
  · rw [chunks_of_neg hn hle] at hcs
    cases hcs
    exact List.chain'_singleton _
  · simp [chunks, pyRange] at hcs
  · obtain ⟨cs', hcs', tiling⟩ := chunks_tiling hn hle
    rw [hcs] at hcs'
    cases hcs'
    have hle' := tiling.begin_le_end hn
    rw [List.chain'_cons']
    refine ⟨fun y hy => ?_, ?_⟩
    · have := tiling.head y hy
      have := hle' y (List.mem_of_mem_head? hy)
      exact ⟨by omega, by omega⟩
    · refine (List.Chain'.iff_mem.mp tiling.consecutive).imp fun a b ⟨_, hb, hab⟩ => ?_
      have := hle' b hb
      exact ⟨by omega, by omega⟩

end Pooler
