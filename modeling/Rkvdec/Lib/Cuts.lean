import Mathlib.Tactic

/-! A row that is cut into parts one behind the other: where the parts start, with the end behind
them, and lists that are made of chunks of one length. -/
namespace Rkvdec.Lib

/-- The starts of parts of the lengths `ws` from `a` on, and the end of the last one. -/
def cuts (a : Nat) (ws : List Nat) : List Nat := List.scanl (· + ·) a ws

/-- The length of part `i`. -/
def partAt (starts : List Nat) (i : Nat) : Nat := starts.getD (i + 1) 0 - starts.getD i 0

/-- The parts have lengths and together cover the row from 0 to `limit`. -/
structure Covers (limit : Nat) (starts : List Nat) : Prop where
  first : starts.head? = some 0
  increasing : starts.Pairwise (· < ·)
  last : starts.getLast? = some limit

variable {a limit : Nat} {ws : List Nat} {i w : Nat}

@[simp] theorem length_cuts (a : Nat) (ws : List Nat) : (cuts a ws).length = ws.length + 1 :=
  List.length_scanl

theorem cuts_cons (a w : Nat) (ws : List Nat) : cuts a (w :: ws) = a :: cuts (a + w) ws :=
  List.scanl_cons

theorem getLast?_cuts (a : Nat) (ws : List Nat) : (cuts a ws).getLast? = some (a + ws.sum) := by
  rw [cuts, List.getLast?_scanl]
  congr 1
  induction ws generalizing a with
  | nil => rfl
  | cons w ws ih => rw [List.foldl_cons, ih, List.sum_cons, Nat.add_assoc]

theorem le_of_mem_cuts (h : i ∈ cuts a ws) : a ≤ i := by
  induction ws generalizing a with
  | nil => exact (List.mem_singleton.mp h).ge
  | cons w ws ih =>
    rw [cuts_cons, List.mem_cons] at h
    rcases h with rfl | h
    · exact Nat.le_refl i
    · exact (Nat.le_add_right a w).trans (ih h)

theorem pairwise_cuts (a : Nat) (h : ∀ w ∈ ws, 0 < w) : (cuts a ws).Pairwise (· < ·) := by
  induction ws generalizing a with
  | nil => exact List.pairwise_singleton _ _
  | cons w ws ih =>
    rw [cuts_cons, List.pairwise_cons]
    refine ⟨fun i hi => ?_, ih (a + w) fun v hv => h v (List.mem_cons_of_mem _ hv)⟩
    have hw := h w List.mem_cons_self
    exact Nat.lt_of_lt_of_le (by omega) (le_of_mem_cuts hi)

theorem covers_cuts (h : ∀ w ∈ ws, 0 < w) (hsum : ws.sum = limit) : Covers limit (cuts 0 ws) := by
  refine ⟨List.head?_scanl, pairwise_cuts 0 h, ?_⟩
  rw [getLast?_cuts, hsum, Nat.zero_add]

/-- The lengths again. -/
theorem partAt_cuts (a : Nat) (h : ws[i]? = some w) : partAt (cuts a ws) i = w := by
  induction ws generalizing a i with
  | nil => cases h
  | cons v ws ih =>
    rw [cuts_cons]
    cases i with
    | zero =>
      obtain rfl : v = w := Option.some.inj h
      have hhead : (cuts (a + v) ws)[0]? = some (a + v) := List.getElem?_scanl_zero
      rw [partAt, List.getD_eq_getElem?_getD, List.getD_eq_getElem?_getD, List.getElem?_cons_succ,
        hhead]
      exact Nat.add_sub_cancel_left a v
    | succ i =>
      have hrest := ih (a + v) (i := i) h
      rw [partAt, List.getD_eq_getElem?_getD, List.getD_eq_getElem?_getD] at hrest ⊢
      rw [List.getElem?_cons_succ, List.getElem?_cons_succ]
      exact hrest

section Shares

variable {n : Nat} {coded : List Int}

/-- The length of part `i` where `w` is shared out evenly among `n` parts. -/
def share (w n i : Nat) : Nat := (i + 1) * w / n - i * w / n

def shares (w n : Nat) : List Nat := (List.range n).map (share w n)

theorem sum_range_share (w n k : Nat) : ((List.range k).map (share w n)).sum = k * w / n := by
  induction k with
  | zero =>
    rw [Nat.zero_mul, Nat.zero_div]
    rfl
  | succ k ih =>
    have hmono : k * w / n ≤ (k + 1) * w / n :=
      Nat.div_le_div_right (Nat.mul_le_mul_right w (Nat.le_succ k))
    rw [List.range_succ, List.map_append, List.sum_append, ih, List.map_singleton,
      List.sum_singleton, share]
    omega

/-- The parts cover the row. -/
theorem sum_shares (w : Nat) (hn : 0 < n) : (shares w n).sum = w := by
  rw [shares, sum_range_share, Nat.mul_div_cancel_left w hn]

theorem share_le (w : Nat) (hi : i < n) : share w n i ≤ w := by
  have hend : (i + 1) * w / n ≤ w := Nat.div_le_of_le_mul (Nat.mul_le_mul_right w hi)
  exact (Nat.sub_le _ _).trans hend

/-- None is empty if there are no more parts than there is to share. -/
theorem share_pos (hn : 0 < n) (hw : n ≤ w) (i : Nat) : 0 < share w n i := by
  have hstep : i * w / n + 1 ≤ (i + 1) * w / n := by
    rw [Nat.le_div_iff_mul_le hn, Nat.add_mul, Nat.add_mul, Nat.one_mul, Nat.one_mul]
    exact Nat.add_le_add (Nat.div_mul_le_self _ _) hw
  unfold share
  omega

/-- Rounding up to 1 keeps the sum only of a row without empty parts. -/
theorem sum_max_one (ws : List Nat) : ws.sum ≤ (ws.map (max · 1)).sum ∧
    ((ws.map (max · 1)).sum = ws.sum → ∀ w ∈ ws, 0 < w) := by
  induction ws with
  | nil => exact ⟨Nat.le_refl 0, fun _ w hw => by cases hw⟩
  | cons v ws ih =>
    obtain ⟨hle, hpos⟩ := ih
    rw [List.map_cons, List.sum_cons, List.sum_cons]
    refine ⟨by omega, fun hsum w hw => ?_⟩
    rcases List.mem_cons.mp hw with rfl | hw
    · omega
    · exact hpos (by omega) w hw

/-- A row that is covered is the one of the shares, each of them at least 1, only if it is the one
of the shares and none of them is empty. -/
theorem max_shares_eq_iff (w : Nat) (hn : 0 < n) (hsum : coded.sum = w) :
    (shares w n).map (fun s : Nat => ((max s 1 : Nat) : Int)) = coded ↔
      n ≤ w ∧ (shares w n).map (fun s : Nat => (s : Int)) = coded := by
  have hcast (l : List Nat) : (l.map fun s : Nat => (s : Int)).sum = ((l.sum : Nat) : Int) := by
    induction l with
    | nil => rfl
    | cons v l ih => rw [List.map_cons, List.sum_cons, ih, List.sum_cons, Nat.cast_add]
  have hsame (h : ∀ s ∈ shares w n, 0 < s) :
      (shares w n).map (fun s : Nat => ((max s 1 : Nat) : Int)) =
      (shares w n).map fun s : Nat => (s : Int) := by
    refine List.map_congr_left fun s hs => ?_
    rw [Nat.max_eq_left (h s hs)]
  constructor
  · intro hall
    have hmax : ((shares w n).map (max · 1)).sum = (shares w n).sum := by
      have hlist : (shares w n).map (fun s : Nat => ((max s 1 : Nat) : Int)) =
          ((shares w n).map (max · 1)).map fun s : Nat => (s : Int) := by
        rw [List.map_map]
        rfl
      have htotal := congrArg List.sum hall
      rw [hlist, hcast, hsum] at htotal
      rw [sum_shares w hn]
      exact Int.ofNat.inj htotal
    have hpos := (sum_max_one (shares w n)).2 hmax
    have hlen : n ≤ (shares w n).sum := by
      have hcount : (shares w n).length = n := by rw [shares, List.length_map, List.length_range]
      have hle := List.length_le_sum_of_one_le (shares w n) hpos
      rwa [hcount] at hle
    rw [sum_shares w hn] at hlen
    exact ⟨hlen, (hsame hpos).symm.trans hall⟩
  · rintro ⟨hle, hall⟩
    refine (hsame fun s hs => ?_).trans hall
    obtain ⟨i, -, rfl⟩ := List.mem_map.mp hs
    exact share_pos hn hle i

end Shares

section Chunks

variable {α : Type} {f : Nat → List α} {n len r j : Nat}

theorem length_flatMap_range (h : ∀ r < n, (f r).length = len) :
    ((List.range n).flatMap f).length = n * len := by
  induction n with
  | zero => simp
  | succ n ih =>
    rw [List.range_succ, List.flatMap_append, List.length_append, ih fun r hr => h r (by omega),
      List.flatMap_singleton, h n (by omega), Nat.add_one_mul]

/-- Element `j` of chunk `r`. -/
theorem getElem?_flatMap_range (h : ∀ r < n, (f r).length = len) (hr : r < n) (hj : j < len) :
    ((List.range n).flatMap f)[r * len + j]? = (f r)[j]? := by
  induction n with
  | zero => omega
  | succ n ih =>
    have hlen := length_flatMap_range fun r hr => h r (Nat.lt_succ_of_lt hr)
    rw [List.range_succ, List.flatMap_append, List.flatMap_singleton]
    rcases Nat.lt_succ_iff_lt_or_eq.mp hr with hlt | rfl
    · have hinside : r * len + j < n * len := by nlinarith
      rw [List.getElem?_append_left (by rwa [hlen]), ih (fun r hr => h r (by omega)) hlt]
    · rw [List.getElem?_append_right (by rw [hlen]; omega), hlen, Nat.add_sub_cancel_left]

theorem getD_flatMap_range (d : α) (h : ∀ r < n, (f r).length = len) (hr : r < n) (hj : j < len) :
    ((List.range n).flatMap f).getD (len * r + j) d = (f r).getD j d := by
  rw [List.getD_eq_getElem?_getD, List.getD_eq_getElem?_getD, Nat.mul_comm,
    getElem?_flatMap_range h hr hj]

end Chunks

end Rkvdec.Lib
