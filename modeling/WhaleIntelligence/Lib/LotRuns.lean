import WhaleIntelligence.Lib.FifoLots

/- Runs of additions to and draws from an inventory of lots.

   Besides the draw of `FifoLots` there is one that leaves the whole cost on the
   lot it splits (`drawKeeping`): the first piece of a lot is charged its share,
   and the next pieces are charged shares of the whole cost again. The two charge
   the same amounts throughout a run exactly when no lot with a cost is drawn in
   pieces (`charges_eq_iff`). That condition is a matter of running sums: a lot
   lies in a stretch of what is ever taken, and it is drawn in pieces when a take
   ends inside its stretch and more is taken later (`Pieced`). -/
namespace FifoLots

section
variable {α τ σ : Type} [Field α]

/-- The lot with its time in another form. -/
def Lot.mapTime (f : τ → σ) (l : Lot α τ) : Lot α σ := ⟨l.amount, l.cost, l.time.map f⟩

/-- The lot without the part `q`, its cost left whole. -/
def Lot.keep (l : Lot α τ) (q : α) : Lot α τ := ⟨l.amount - q, l.cost, l.time⟩

/-- What happens to an inventory. -/
inductive Op (α τ : Type) where
  | add (l : Lot α τ)
  | take (q : α)

/-- The takes, added up. -/
def taken : List (Op α τ) → α
  | [] => 0
  | .add _ :: ops => taken ops
  | .take q :: ops => q + taken ops

/-- The cost of the lots added. -/
def added : List (Op α τ) → α
  | [] => 0
  | .add l :: ops => l.cost + added ops
  | .take _ :: ops => added ops

/-- What a run charges to each of its takes, under a way to draw. -/
def charges (d : List (Lot α τ) → α → Drawn α τ) : List (Lot α τ) → List (Op α τ) → List α
  | _, [] => []
  | lots, .add l :: ops => charges d (lots ++ [l]) ops
  | lots, .take q :: ops => (d lots q).cost :: charges d (d lots q).left ops

/-- A lot without a cost is the same lot however a part of it is charged. -/
theorem keep_eq_rest {l : Lot α τ} (hfree : l.cost = 0) (drawn : α) : l.keep drawn = l.rest drawn := by
  rw [Lot.keep, Lot.rest, Lot.share, hfree, zero_mul, sub_zero]

theorem rest_cost_of_free {l : Lot α τ} (hfree : l.cost = 0) (drawn : α) : (l.rest drawn).cost = 0 := by
  rw [Lot.rest, Lot.share, hfree, zero_mul, sub_zero]

variable [LinearOrder α]

/-- The draw that leaves the whole cost on the lot it splits. -/
def drawKeeping : List (Lot α τ) → α → Drawn α τ
  | [], _ => ⟨[], 0, none⟩
  | l :: ls, q =>
    if q ≤ 0 then ⟨l :: ls, 0, none⟩
    else if l.amount ≤ q then
      let d := drawKeeping ls (q - l.amount)
      ⟨d.left, l.share l.amount + d.cost, l.time.or d.since⟩
    else ⟨l.keep q :: ls, l.share q, l.time⟩

/-- Some take ends inside the stretch from `lo` to `hi`, and more is taken after
it. The third argument is what has been taken so far. -/
def Pieced (lo hi : α) : α → List (Op α τ) → Prop
  | _, [] => False
  | done, .add _ :: ops => Pieced lo hi done ops
  | done, .take q :: ops => (lo < done + q ∧ done + q < hi ∧ 0 < taken ops) ∨ Pieced lo hi (done + q) ops

/-- No lot with a cost that is added is drawn in pieces. The first argument is
the amount held. -/
def Unpieced : α → List (Op α τ) → Prop
  | _, [] => True
  | held, .add l :: ops =>
    (l.cost ≠ 0 → ¬ Pieced held (held + l.amount) 0 ops) ∧ Unpieced (held + l.amount) ops
  | held, .take q :: ops => Unpieced (max 0 (held - q)) ops

/-- No lot with a cost among those held is drawn in pieces. The first argument
is the amount in front of the lots. -/
def LotsUnpieced : α → List (Lot α τ) → List (Op α τ) → Prop
  | _, [], _ => True
  | lo, l :: ls, ops => (l.cost ≠ 0 → ¬ Pieced lo (lo + l.amount) 0 ops) ∧ LotsUnpieced (lo + l.amount) ls ops

/-- Nothing negative is added or taken. -/
def Sound (ops : List (Op α τ)) : Prop :=
  ∀ op ∈ ops, match op with
    | .add l => 0 ≤ l.amount ∧ 0 ≤ l.cost
    | .take q => 0 ≤ q

/-- No lot costs less than nothing. -/
def Priced (lots : List (Lot α τ)) : Prop := ∀ l ∈ lots, 0 ≤ l.cost

instance decidablePieced (lo hi : α) : ∀ (done : α) (ops : List (Op α τ)), Decidable (Pieced lo hi done ops)
  | _, [] => inferInstanceAs (Decidable False)
  | done, .add _ :: ops => decidablePieced lo hi done ops
  | done, .take q :: ops =>
    have := decidablePieced lo hi (done + q) ops
    inferInstanceAs (Decidable (_ ∨ _))

instance decidableUnpieced : ∀ (held : α) (ops : List (Op α τ)), Decidable (Unpieced held ops)
  | _, [] => inferInstanceAs (Decidable True)
  | held, .add l :: ops =>
    have := decidableUnpieced (held + l.amount) ops
    inferInstanceAs (Decidable (_ ∧ _))
  | held, .take q :: ops => decidableUnpieced (max 0 (held - q)) ops

/-! ## Times play no part -/

theorem draw_mapTime (f : τ → σ) (lots : List (Lot α τ)) (q : α) :
    draw (lots.map (Lot.mapTime f)) q =
      ⟨(draw lots q).left.map (Lot.mapTime f), (draw lots q).cost, (draw lots q).since.map f⟩ := by
  induction lots generalizing q with
  | nil => rfl
  | cons l ls ih =>
    rw [List.map_cons, draw, draw]
    by_cases hq : q ≤ 0
    · rw [if_pos hq, if_pos hq]
      rfl
    · rw [if_neg hq, if_neg hq]
      by_cases hl : l.amount ≤ q
      · rw [if_pos hl, if_pos (show (l.mapTime f).amount ≤ q from hl)]
        simp only [Lot.mapTime, ih, Lot.share]
        cases l.time <;> rfl
      · rw [if_neg hl, if_neg (show ¬ (l.mapTime f).amount ≤ q from hl)]
        rfl

/-! ## The two draws -/

theorem drawKeeping_idle {q : α} (hq : q ≤ 0) (lots : List (Lot α τ)) : drawKeeping lots q = ⟨lots, 0, none⟩ := by
  cases lots with
  | nil => rfl
  | cons l ls => rw [drawKeeping, if_pos hq]

theorem drawKeeping_whole {q : α} (hq : 0 < q) {l : Lot α τ} (hl : l.amount ≤ q) (ls : List (Lot α τ)) :
    drawKeeping (l :: ls) q = ⟨(drawKeeping ls (q - l.amount)).left,
      l.share l.amount + (drawKeeping ls (q - l.amount)).cost,
      l.time.or (drawKeeping ls (q - l.amount)).since⟩ := by
  rw [drawKeeping, if_neg (not_le.mpr hq), if_pos hl]

theorem drawKeeping_part {q : α} (hq : 0 < q) {l : Lot α τ} (hl : q < l.amount) (ls : List (Lot α τ)) :
    drawKeeping (l :: ls) q = ⟨l.keep q :: ls, l.share q, l.time⟩ := by
  rw [drawKeeping, if_neg (not_le.mpr hq), if_neg (not_le.mpr hl)]

/-- On one inventory the two draws charge the same. -/
theorem drawKeeping_cost (lots : List (Lot α τ)) (q : α) : (drawKeeping lots q).cost = (draw lots q).cost := by
  induction lots generalizing q with
  | nil => rfl
  | cons l ls ih =>
    rw [drawKeeping, draw]
    split
    · rfl
    · split
      · simp only [ih]
      · rfl

/-! ## Runs and inventories, taken apart -/

section
variable {lots : List (Lot α τ)} {ops : List (Op α τ)} {op : Op α τ} {l : Lot α τ} {q lo : α}

theorem Sound.tail (h : Sound (op :: ops)) : Sound ops := fun o ho => h o (List.mem_cons_of_mem _ ho)

theorem Sound.add (h : Sound (.add l :: ops)) : 0 ≤ l.amount ∧ 0 ≤ l.cost := h _ List.mem_cons_self

theorem Sound.take (h : Sound (.take q :: ops)) : 0 ≤ q := h (.take q) List.mem_cons_self

theorem stocked_concat (h : Stocked lots) (hl : 0 ≤ l.amount) : Stocked (lots ++ [l]) := by
  intro m hm
  rcases List.mem_append.mp hm with hm | hm
  · exact h m hm
  · rw [List.mem_singleton.mp hm]; exact hl

theorem priced_concat (h : Priced lots) (hl : 0 ≤ l.cost) : Priced (lots ++ [l]) := by
  intro m hm
  rcases List.mem_append.mp hm with hm | hm
  · exact h m hm
  · rw [List.mem_singleton.mp hm]; exact hl

theorem lotsUnpieced_append (ls ms : List (Lot α τ)) :
    LotsUnpieced lo (ls ++ ms) ops ↔ LotsUnpieced lo ls ops ∧ LotsUnpieced (lo + supply ls) ms ops := by
  induction ls generalizing lo with
  | nil => simp [LotsUnpieced]
  | cons l ls ih => rw [List.cons_append, LotsUnpieced, LotsUnpieced, ih, supply_cons, add_assoc, and_assoc]

/-- An addition cuts nothing. -/
theorem lotsUnpieced_add (l : Lot α τ) : LotsUnpieced lo lots (.add l :: ops) ↔ LotsUnpieced lo lots ops := by
  induction lots generalizing lo with
  | nil => exact Iff.rfl
  | cons m ls ih => rw [LotsUnpieced, LotsUnpieced, ih, Pieced]

end

section
variable [IsStrictOrderedRing α] {lots : List (Lot α τ)} {q : α}

/-- A draw ends between two lots, where it leaves the same lots either way, or
inside one lot. -/
theorem draw_cases (h : Stocked lots) (hq : 0 ≤ q) :
    (drawKeeping lots q = draw lots q ∧ ∃ pre, lots = pre ++ (draw lots q).left ∧ supply pre ≤ q ∧
      (supply pre = q ∨ (draw lots q).left = [])) ∨
    ∃ pre l post, lots = pre ++ l :: post ∧ supply pre < q ∧ q < supply pre + l.amount ∧
      (draw lots q).left = l.rest (q - supply pre) :: post ∧
      (drawKeeping lots q).left = l.keep (q - supply pre) :: post := by
  induction lots generalizing q with
  | nil => exact Or.inl ⟨rfl, [], rfl, hq, Or.inr rfl⟩
  | cons l ls ih =>
    have hls : Stocked ls := fun m hm => h m (List.mem_cons_of_mem _ hm)
    rcases hq.eq_or_lt with rfl | hpos
    · rw [draw_idle le_rfl, drawKeeping_idle le_rfl]
      exact Or.inl ⟨rfl, [], rfl, le_rfl, Or.inl rfl⟩
    · rcases le_or_gt l.amount q with hle | hlt
      · rw [draw_whole hpos hle, drawKeeping_whole hpos hle]
        rcases ih hls (sub_nonneg.mpr hle) with ⟨heq, pre, hpre, hsup, hend⟩ | ⟨pre, m, post, hpre, hlo, hhi, hd, hk⟩
        · refine Or.inl ⟨by rw [heq], l :: pre, by rw [List.cons_append, ← hpre], ?_, ?_⟩
          · rw [supply_cons]; linarith
          · refine hend.imp_left fun he => ?_
            rw [supply_cons]; linarith
        · have hshift : q - l.amount - supply pre = q - supply (l :: pre) := by rw [supply_cons]; ring
          rw [hshift] at hd hk
          refine Or.inr ⟨l :: pre, m, post, by rw [hpre, List.cons_append], ?_, ?_, hd, hk⟩
          · rw [supply_cons]; linarith
          · rw [supply_cons]; linarith
      · rw [draw_part hpos hlt, drawKeeping_part hpos hlt]
        refine Or.inr ⟨[], l, ls, rfl, hpos, ?_, ?_, ?_⟩
        · rw [supply_nil, zero_add]; exact hlt
        · rw [supply_nil, sub_zero]
        · rw [supply_nil, sub_zero]

theorem stocked_drawKeeping (h : Stocked lots) : Stocked (drawKeeping lots q).left := by
  induction lots generalizing q with
  | nil => exact h
  | cons l ls ih =>
    have hls : Stocked ls := fun m hm => h m (List.mem_cons_of_mem _ hm)
    rcases le_or_gt q 0 with hq | hq
    · rw [drawKeeping_idle hq]; exact h
    · rcases le_or_gt l.amount q with hle | hlt
      · rw [drawKeeping_whole hq hle]; exact ih hls
      · rw [drawKeeping_part hq hlt]
        intro m hm
        rcases List.mem_cons.mp hm with rfl | hm
        · exact sub_nonneg.mpr hlt.le
        · exact hls m hm

/-! ## What is charged in all -/

theorem priced_draw (hs : Stocked lots) (hp : Priced lots) : Priced (draw lots q).left := by
  induction lots generalizing q with
  | nil => exact hp
  | cons l ls ih =>
    have hls : Stocked ls := fun m hm => hs m (List.mem_cons_of_mem _ hm)
    have hps : Priced ls := fun m hm => hp m (List.mem_cons_of_mem _ hm)
    rcases le_or_gt q 0 with hq | hq
    · rw [draw_idle hq]; exact hp
    · rcases le_or_gt l.amount q with hle | hlt
      · rw [draw_whole hq hle]; exact ih hls hps
      · rw [draw_part hq hlt]
        intro m hm
        rcases List.mem_cons.mp hm with rfl | hm
        · have hpart : q / l.amount ≤ 1 := (div_le_one (hq.trans hlt)).mpr hlt.le
          have hcost : 0 ≤ l.cost := hp l List.mem_cons_self
          exact sub_nonneg.mpr (mul_le_of_le_one_right hcost hpart)
        · exact hps m hm

theorem worth_nonneg (hp : Priced lots) : 0 ≤ worth lots := by
  apply List.sum_nonneg
  intro a ha
  obtain ⟨l, hl, rfl⟩ := List.mem_map.mp ha
  exact hp l hl

theorem stranded_nonneg (hp : Priced lots) : 0 ≤ stranded lots q := by
  induction lots generalizing q with
  | nil => exact le_rfl
  | cons l ls ih =>
    have hrest : 0 ≤ stranded ls (q - l.amount) := ih fun m hm => hp m (List.mem_cons_of_mem _ hm)
    have hcost : 0 ≤ l.cost := hp l List.mem_cons_self
    rw [stranded]
    split
    · linarith
    · linarith

end

end

section
variable {α τ : Type} [Field α] [LinearOrder α] [IsStrictOrderedRing α]
variable {lots : List (Lot α τ)} {ops : List (Op α τ)} {op : Op α τ} {l : Lot α τ} {q lo hi done held : α}

/-- All that is charged was paid for the lots. -/
theorem charges_sum_le (ho : Sound ops) (hs : Stocked lots) (hp : Priced lots) :
    (charges draw lots ops).sum ≤ worth lots + added ops := by
  induction ops generalizing lots with
  | nil => simpa [charges, added] using worth_nonneg hp
  | cons op ops ih =>
    cases op with
    | add l =>
      have hrest := ih ho.tail (stocked_concat hs ho.add.1) (priced_concat hp ho.add.2)
      rw [worth_append, worth_cons, worth_nil, add_zero] at hrest
      rw [charges, added]
      linarith
    | take q =>
      have hrest := ih ho.tail (stocked_draw (q := q) hs) (priced_draw (q := q) hs hp)
      have hbalance := worth_draw (q := q) hs
      have hlost := stranded_nonneg (q := q) hp
      rw [charges, added, List.sum_cons]
      linarith

/-! ## Pieces -/

theorem taken_nonneg (ho : Sound ops) : 0 ≤ taken ops := by
  induction ops with
  | nil => exact le_rfl
  | cons op ops ih =>
    have hrest := ih ho.tail
    cases op with
    | add l => exact hrest
    | take q => exact add_nonneg ho.take hrest

/-- A piece needs another take. -/
theorem Pieced.taken_pos (ho : Sound ops) (h : Pieced lo hi done ops) : 0 < taken ops := by
  induction ops generalizing done with
  | nil => exact h.elim
  | cons op ops ih =>
    cases op with
    | add l => exact ih ho.tail h
    | take q =>
      have hq := ho.take
      rw [taken]
      rcases h with ⟨-, -, h⟩ | h
      · linarith
      · linarith [ih ho.tail h]

/-- A stretch that lies behind what has been taken is not cut any more. -/
theorem not_pieced_of_le (ho : Sound ops) (h : hi ≤ done) : ¬ Pieced lo hi done ops := by
  induction ops generalizing done with
  | nil => exact id
  | cons op ops ih =>
    cases op with
    | add l => exact ih ho.tail h
    | take q =>
      have hq := ho.take
      intro hp
      rcases hp with ⟨-, hlt, -⟩ | hp
      · linarith
      · exact ih ho.tail (by linarith) hp

/-- Only the place of the stretch relative to what has been taken matters. -/
theorem pieced_shift (c : α) : Pieced (c + lo) (c + hi) (c + done) ops ↔ Pieced lo hi done ops := by
  induction ops generalizing done with
  | nil => exact Iff.rfl
  | cons op ops ih =>
    cases op with
    | add l => exact ih
    | take q =>
      rw [Pieced, Pieced, add_assoc, ih, add_lt_add_iff_left, add_lt_add_iff_left]

/-- The lots that a take passes are not cut. -/
theorem lotsUnpieced_passed (ho : Sound ops) (hs : Stocked lots) (h : lo + supply lots ≤ q) :
    LotsUnpieced lo lots (.take q :: ops) := by
  induction lots generalizing lo with
  | nil => trivial
  | cons l ls ih =>
    have hls : Stocked ls := fun m hm => hs m (List.mem_cons_of_mem _ hm)
    have hrest := supply_nonneg hls
    rw [supply_cons] at h
    refine ⟨fun _ hp => ?_, ih hls (by linarith)⟩
    rcases hp with ⟨-, hlt, -⟩ | hp
    · linarith
    · exact not_pieced_of_le ho (by linarith) hp

/-- The lots behind the end of a take are cut by what comes after it. -/
theorem lotsUnpieced_ahead (hs : Stocked lots) {a : α} (ha : 0 ≤ a) :
    LotsUnpieced (q + a) lots (.take q :: ops) ↔ LotsUnpieced a lots ops := by
  induction lots generalizing a with
  | nil => exact Iff.rfl
  | cons l ls ih =>
    have hls : Stocked ls := fun m hm => hs m (List.mem_cons_of_mem _ hm)
    have hl : 0 ≤ l.amount := hs l List.mem_cons_self
    have hcut : Pieced (q + a) (q + a + l.amount) 0 (.take q :: ops) ↔ Pieced a (a + l.amount) 0 ops := by
      rw [Pieced, zero_add, add_assoc, or_iff_right (fun h => by linarith [h.1])]
      have hshift : Pieced (q + a) (q + (a + l.amount)) (q + 0) ops ↔ Pieced a (a + l.amount) 0 ops :=
        pieced_shift q
      rwa [add_zero] at hshift
    rw [LotsUnpieced, LotsUnpieced, hcut, add_assoc, ih hls (by linarith)]

/-- Where nothing more is taken nothing is cut. -/
theorem lotsUnpieced_idle (ho : Sound ops) (h : taken ops ≤ 0) (lots : List (Lot α τ)) :
    LotsUnpieced lo lots ops := by
  induction lots generalizing lo with
  | nil => trivial
  | cons l ls ih => exact ⟨fun _ hp => absurd (hp.taken_pos ho) (not_lt.mpr h), ih⟩

theorem unpieced_idle (ho : Sound ops) (h : taken ops ≤ 0) : Unpieced held ops := by
  induction ops generalizing held with
  | nil => trivial
  | cons op ops ih =>
    cases op with
    | add l => exact ⟨fun _ hp => absurd (hp.taken_pos ho.tail) (not_lt.mpr h), ih ho.tail h⟩
    | take q =>
      have hq := ho.take
      rw [taken] at h
      exact ih ho.tail (by linarith)

/-! ## When the two draws charge the same -/

/-- Where nothing more is taken the inventories play no part. -/
theorem charges_idle (ho : Sound ops) (h : taken ops ≤ 0) (lots' : List (Lot α τ)) :
    charges draw lots ops = charges drawKeeping lots' ops := by
  induction ops generalizing lots lots' with
  | nil => rfl
  | cons op ops ih =>
    cases op with
    | add l => exact ih ho.tail h _
    | take q =>
      have hq := ho.take
      have hrest := taken_nonneg ho.tail
      rw [taken] at h
      have hzero : q ≤ 0 := by linarith
      rw [charges, charges, draw_idle hzero, drawKeeping_idle hzero]
      simp only [ih ho.tail (by linarith) lots']

/-- A lot in front that costs more is charged more as soon as anything is taken. -/
theorem charges_ne {n k : Lot α τ} {ls : List (Lot α τ)} (ho : Sound ops) (hamount : n.amount = k.amount)
    (hpos : 0 < n.amount) (hcost : n.cost < k.cost) (h : 0 < taken ops) :
    charges draw (n :: ls) ops ≠ charges drawKeeping (k :: ls) ops := by
  induction ops generalizing ls with
  | nil => exact absurd h (lt_irrefl _)
  | cons op ops ih =>
    cases op with
    | add l => exact ih ho.tail h
    | take q =>
      intro heq
      rw [charges, charges, List.cons.injEq] at heq
      rcases ho.take.eq_or_lt with rfl | hq
      · rw [draw_idle le_rfl, drawKeeping_idle le_rfl] at heq
        rw [taken, zero_add] at h
        exact ih ho.tail h heq.2
      · rcases le_or_gt n.amount q with hle | hlt
        · rw [draw_whole hq hle, drawKeeping_whole hq (hamount ▸ hle), hamount, drawKeeping_cost] at heq
          have hboth := heq.1
          simp only at hboth
          rw [← hamount, share_whole hpos.ne', hamount, share_whole (hamount ▸ hpos.ne')] at hboth
          linarith
        · rw [draw_part hq hlt, drawKeeping_part hq (hamount ▸ hlt)] at heq
          have hboth : n.cost * (q / n.amount) = k.cost * (q / k.amount) := heq.1
          have hlt' := mul_lt_mul_of_pos_right hcost (div_pos hq hpos)
          rw [hboth, hamount] at hlt'
          exact absurd hlt' (lt_irrefl _)

/-! ## What a take cuts -/

/-- A take that ends between two lots cuts none of those in front. -/
theorem lotsUnpieced_between {pre left : List (Lot α τ)} (ho : Sound ops) (hpre : Stocked pre) (hleft : Stocked left)
    (hsup : supply pre ≤ q) (hend : supply pre = q ∨ left = []) :
    LotsUnpieced 0 (pre ++ left) (.take q :: ops) ↔ LotsUnpieced 0 left ops := by
  have hpassed : LotsUnpieced 0 pre (.take q :: ops) := lotsUnpieced_passed ho hpre (by rw [zero_add]; exact hsup)
  rw [lotsUnpieced_append, zero_add, and_iff_right hpassed]
  rcases hend with hend | hend
  · have hahead : LotsUnpieced (q + 0) left (.take q :: ops) ↔ LotsUnpieced 0 left ops :=
      lotsUnpieced_ahead hleft le_rfl
    rw [add_zero] at hahead
    rw [hend]
    exact hahead
  · rw [hend]
    exact Iff.rfl

/-- A take that ends inside a lot leaves a piece of it, which is cut where more is taken. -/
theorem lotsUnpieced_inside {pre post : List (Lot α τ)} {l : Lot α τ} (ho : Sound ops) (hpre : Stocked pre)
    (hpost : Stocked post) (hlo : supply pre < q) (hhi : q < supply pre + l.amount) :
    LotsUnpieced 0 (pre ++ l :: post) (.take q :: ops) ↔
      (l.cost ≠ 0 → ¬ 0 < taken ops) ∧ LotsUnpieced (l.amount - (q - supply pre)) post ops := by
  have hsupply : supply pre + l.amount = q + (l.amount - (q - supply pre)) := by ring
  have hpassed : LotsUnpieced 0 pre (.take q :: ops) :=
    lotsUnpieced_passed ho hpre (by rw [zero_add]; exact hlo.le)
  have hcut : Pieced (supply pre) (supply pre + l.amount) 0 (.take q :: ops) ↔ 0 < taken ops := by
    rw [Pieced, zero_add]
    refine ⟨fun h => ?_, fun h => Or.inl ⟨hlo, hhi, h⟩⟩
    rcases h with h | h
    · exact h.2.2
    · exact h.taken_pos ho
  rw [lotsUnpieced_append, zero_add, and_iff_right hpassed, LotsUnpieced, hcut, hsupply,
    lotsUnpieced_ahead hpost (by linarith)]

/-- The rest of a lot costs less when it is charged in shares. -/
theorem rest_cost_lt {l : Lot α τ} {drawn : α} (hpaid : 0 < l.cost) (hdrawn : 0 < drawn) (hamount : 0 < l.amount) :
    (l.rest drawn).cost < (l.keep drawn).cost := by
  have hshare : 0 < l.share drawn := mul_pos hpaid (div_pos hdrawn hamount)
  exact sub_lt_self _ hshare

/-- The two draws charge the same throughout a run exactly when no lot with a
cost is drawn in pieces. -/
theorem charges_eq_iff (ho : Sound ops) (hs : Stocked lots) (hp : Priced lots) :
    charges draw lots ops = charges drawKeeping lots ops ↔
      LotsUnpieced 0 lots ops ∧ Unpieced (supply lots) ops := by
  induction ops generalizing lots with
  | nil => exact iff_of_true rfl ⟨lotsUnpieced_idle ho le_rfl lots, trivial⟩
  | cons op ops ih =>
    cases op with
    | add l =>
      rw [charges, charges, ih ho.tail (stocked_concat hs ho.add.1) (priced_concat hp ho.add.2),
        lotsUnpieced_append, supply_append, supply_cons, supply_nil, add_zero, zero_add, lotsUnpieced_add, Unpieced,
        LotsUnpieced, LotsUnpieced, and_true, and_assoc]
    | take q =>
      have hq := ho.take
      have hrest := ih ho.tail (stocked_draw (q := q) hs) (priced_draw (q := q) hs hp)
      rw [supply_draw hq hs] at hrest
      rw [charges, charges, drawKeeping_cost, List.cons.injEq, Unpieced]
      rcases draw_cases hs hq with ⟨heq, pre, hpre, hsup, hend⟩ | ⟨pre, l, post, hlots, hlo, hhi, hd, hk⟩
      · -- the take ends between two lots
        have hpreS : Stocked pre := fun m hm => hs m (hpre ▸ List.mem_append_left _ hm)
        have hleft : LotsUnpieced 0 lots (.take q :: ops) ↔ LotsUnpieced 0 (draw lots q).left ops := by
          conv_lhs => rw [hpre]
          exact lotsUnpieced_between ho.tail hpreS (stocked_draw hs) hsup hend
        rw [heq, hrest, hleft]
        simp
      · -- the take ends inside the lot `l`
        have hpreS : Stocked pre := fun m hm => hs m (hlots ▸ List.mem_append_left _ hm)
        have hpostS : Stocked post := fun m hm =>
          hs m (hlots ▸ List.mem_append_right _ (List.mem_cons_of_mem _ hm))
        have hcost : 0 ≤ l.cost := hp l (hlots ▸ List.mem_append_right _ List.mem_cons_self)
        have hleft := lotsUnpieced_inside ho.tail hpreS hpostS hlo hhi
        rw [← hlots] at hleft
        rw [hleft, hd, hk]
        rcases (taken_nonneg ho.tail).eq_or_lt with hidle | htaken
        · -- nothing more is taken
          have hzero : taken ops ≤ 0 := hidle.ge
          exact iff_of_true ⟨rfl, charges_idle ho.tail hzero _⟩
            ⟨⟨fun _ => not_lt.mpr hzero, lotsUnpieced_idle ho.tail hzero _⟩, unpieced_idle ho.tail hzero⟩
        · rcases hcost.eq_or_lt with hfree | hpaid
          · have hzero := rest_cost_of_free hfree.symm (q - supply pre)
            rw [hd, LotsUnpieced, zero_add, and_iff_right (fun h => absurd hzero h)] at hrest
            rw [keep_eq_rest hfree.symm, hrest, and_iff_right (rfl : (draw lots q).cost = (draw lots q).cost),
              and_iff_right (fun h => absurd hfree.symm h)]
            exact Iff.rfl
          · have hamount : 0 < l.amount - (q - supply pre) := by linarith
            have hless := rest_cost_lt hpaid (sub_pos.mpr hlo) (by linarith)
            have hne : charges draw (l.rest (q - supply pre) :: post) ops ≠
                charges drawKeeping (l.keep (q - supply pre) :: post) ops :=
              charges_ne ho.tail rfl hamount hless htaken
            exact iff_of_false (fun h => hne h.2) fun h => h.1.1 hpaid.ne' htaken

end

end FifoLots
