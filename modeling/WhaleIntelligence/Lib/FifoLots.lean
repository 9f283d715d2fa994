import Mathlib.Algebra.Order.BigOperators.Group.List
import Mathlib.Algebra.Order.Field.Basic
import Mathlib.Tactic.FieldSimp
import Mathlib.Tactic.Ring
import Mathlib.Tactic.Linarith

/- Inventories of lots, drawn first in, first out.

   A lot is an amount, the cost of all of it and the time it was opened. A draw
   takes a quantity from the front: whole lots, with all their cost, and of the
   last one a share, with the same share of its cost. What is drawn beyond the
   supply stays short.

   The amounts balance (`supply_draw`). The cost balances up to `stranded`, the
   cost of the empty lots that a draw passes: they have no amount to charge it to
   (`worth_draw`). Two draws strand together what one draw of the sum does
   (`stranded_add`). They also leave, charge and fall short of the same, whatever
   the amounts of the lots are (`draw_add`). -/
namespace FifoLots

/-- An open lot. The time is unknown for some. -/
structure Lot (α τ : Type) where
  amount : α
  cost : α
  time : Option τ
  deriving DecidableEq, Repr

section
variable {α τ : Type} [Field α]

/-- The cost of the part `q` of a lot. -/
def Lot.share (l : Lot α τ) (q : α) : α := l.cost * (q / l.amount)

/-- The lot without the part `q`. -/
def Lot.rest (l : Lot α τ) (q : α) : Lot α τ := ⟨l.amount - q, l.cost - l.share q, l.time⟩

def supply (lots : List (Lot α τ)) : α := (lots.map Lot.amount).sum

def worth (lots : List (Lot α τ)) : α := (lots.map Lot.cost).sum

@[simp] theorem supply_nil : supply ([] : List (Lot α τ)) = 0 := rfl

@[simp] theorem supply_cons (l : Lot α τ) (ls : List (Lot α τ)) : supply (l :: ls) = l.amount + supply ls := by
  simp [supply]

@[simp] theorem supply_append (ls ms : List (Lot α τ)) : supply (ls ++ ms) = supply ls + supply ms := by
  simp [supply]

@[simp] theorem worth_nil : worth ([] : List (Lot α τ)) = 0 := rfl

@[simp] theorem worth_cons (l : Lot α τ) (ls : List (Lot α τ)) : worth (l :: ls) = l.cost + worth ls := by
  simp [worth]

@[simp] theorem worth_append (ls ms : List (Lot α τ)) : worth (ls ++ ms) = worth ls + worth ms := by
  simp [worth]

theorem share_whole {l : Lot α τ} (h : l.amount ≠ 0) : l.share l.amount = l.cost := by
  rw [Lot.share, div_self h, mul_one]

/-- An empty lot charges nothing. -/
theorem share_empty {l : Lot α τ} (h : l.amount = 0) (q : α) : l.share q = 0 := by
  rw [Lot.share, h, div_zero, mul_zero]

/-! ## Draws -/

variable [LinearOrder α]

/-- What a draw leaves, what it charges, and the first known time of the lots it touches. -/
structure Drawn (α τ : Type) where
  left : List (Lot α τ)
  cost : α
  since : Option τ

/-- Draw the quantity `q` from the front. -/
def draw : List (Lot α τ) → α → Drawn α τ
  | [], _ => ⟨[], 0, none⟩
  | l :: ls, q =>
    if q ≤ 0 then ⟨l :: ls, 0, none⟩
    else if l.amount ≤ q then
      let d := draw ls (q - l.amount)
      ⟨d.left, l.share l.amount + d.cost, l.time.or d.since⟩
    else ⟨l.rest q :: ls, l.share q, l.time⟩

/-- The cost of the empty lots that a draw of `q` passes. -/
def stranded : List (Lot α τ) → α → α
  | [], _ => 0
  | l :: ls, q => (if l.amount = 0 ∧ 0 < q then l.cost else 0) + stranded ls (q - l.amount)

/-- The part of the quantity that the lots do not cover. -/
def short : List (Lot α τ) → α → α
  | [], q => q
  | l :: ls, q => if q ≤ 0 then q else if l.amount ≤ q then short ls (q - l.amount) else 0

/-- No lot holds less than nothing. -/
def Stocked (lots : List (Lot α τ)) : Prop := ∀ l ∈ lots, 0 ≤ l.amount

/-! ## The three cases of a draw -/

theorem draw_idle {q : α} (hq : q ≤ 0) (lots : List (Lot α τ)) : draw lots q = ⟨lots, 0, none⟩ := by
  cases lots with
  | nil => rfl
  | cons l ls => rw [draw, if_pos hq]

theorem draw_whole {q : α} (hq : 0 < q) {l : Lot α τ} (hl : l.amount ≤ q) (ls : List (Lot α τ)) :
    draw (l :: ls) q = ⟨(draw ls (q - l.amount)).left, l.share l.amount + (draw ls (q - l.amount)).cost,
      l.time.or (draw ls (q - l.amount)).since⟩ := by
  rw [draw, if_neg (not_le.mpr hq), if_pos hl]

theorem draw_part {q : α} (hq : 0 < q) {l : Lot α τ} (hl : q < l.amount) (ls : List (Lot α τ)) :
    draw (l :: ls) q = ⟨l.rest q :: ls, l.share q, l.time⟩ := by
  rw [draw, if_neg (not_le.mpr hq), if_neg (not_le.mpr hl)]

theorem short_idle {q : α} (hq : q ≤ 0) (lots : List (Lot α τ)) : short lots q = q := by
  cases lots with
  | nil => rfl
  | cons l ls => rw [short, if_pos hq]

theorem short_whole {q : α} (hq : 0 < q) {l : Lot α τ} (hl : l.amount ≤ q) (ls : List (Lot α τ)) :
    short (l :: ls) q = short ls (q - l.amount) := by
  rw [short, if_neg (not_le.mpr hq), if_pos hl]

theorem short_part {q : α} (hq : 0 < q) {l : Lot α τ} (hl : q < l.amount) (ls : List (Lot α τ)) :
    short (l :: ls) q = 0 := by
  rw [short, if_neg (not_le.mpr hq), if_neg (not_le.mpr hl)]

variable [IsStrictOrderedRing α] {lots : List (Lot α τ)} {q : α}

theorem supply_nonneg (h : Stocked lots) : 0 ≤ supply lots := by
  apply List.sum_nonneg
  intro a ha
  obtain ⟨l, hl, rfl⟩ := List.mem_map.mp ha
  exact h l hl

/-- The amounts balance: what is left is what was there less what was drawn. -/
theorem supply_draw (hq : 0 ≤ q) (h : Stocked lots) : supply (draw lots q).left = max 0 (supply lots - q) := by
  induction lots generalizing q with
  | nil => rw [draw, supply_nil, zero_sub, max_eq_left (neg_nonpos.mpr hq)]
  | cons l ls ih =>
    have hls : Stocked ls := fun m hm => h m (List.mem_cons_of_mem _ hm)
    have hl : 0 ≤ l.amount := h l List.mem_cons_self
    have hrest := supply_nonneg hls
    rcases hq.eq_or_lt with rfl | hpos
    · rw [draw_idle le_rfl, sub_zero, max_eq_right (supply_nonneg h)]
    · rcases le_or_gt l.amount q with hle | hlt
      · rw [draw_whole hpos hle, ih (sub_nonneg.mpr hle) hls, supply_cons]
        congr 1
        ring
      · rw [draw_part hpos hlt, supply_cons, supply_cons, Lot.rest, max_eq_right (by linarith)]
        ring

theorem stocked_draw (h : Stocked lots) : Stocked (draw lots q).left := by
  induction lots generalizing q with
  | nil => exact h
  | cons l ls ih =>
    have hls : Stocked ls := fun m hm => h m (List.mem_cons_of_mem _ hm)
    rcases le_or_gt q 0 with hq | hq
    · rw [draw_idle hq]; exact h
    · rcases le_or_gt l.amount q with hle | hlt
      · rw [draw_whole hq hle]; exact ih hls
      · rw [draw_part hq hlt]
        intro m hm
        rcases List.mem_cons.mp hm with rfl | hm
        · exact sub_nonneg.mpr hlt.le
        · exact hls m hm

/-- A draw beyond the supply leaves nothing. -/
theorem draw_short (h : Stocked lots) (hq : supply lots < q) : (draw lots q).left = [] := by
  induction lots generalizing q with
  | nil => rfl
  | cons l ls ih =>
    have hls : Stocked ls := fun m hm => h m (List.mem_cons_of_mem _ hm)
    have hl : 0 ≤ l.amount := h l List.mem_cons_self
    have hrest := supply_nonneg hls
    rw [supply_cons] at hq
    rw [draw_whole (by linarith) (by linarith)]
    exact ih hls (by linarith)

/-- On a stocked inventory a draw falls short of what exceeds the supply. -/
theorem short_eq (hq : 0 ≤ q) (h : Stocked lots) : short lots q = max 0 (q - supply lots) := by
  induction lots generalizing q with
  | nil => rw [short, supply_nil, sub_zero, max_eq_right hq]
  | cons l ls ih =>
    have hls : Stocked ls := fun m hm => h m (List.mem_cons_of_mem _ hm)
    have hl : 0 ≤ l.amount := h l List.mem_cons_self
    have hrest := supply_nonneg hls
    rcases hq.eq_or_lt with rfl | hpos
    · rw [short_idle le_rfl, supply_cons, max_eq_left (by linarith)]
    · rcases le_or_gt l.amount q with hle | hlt
      · rw [short_whole hpos hle, ih (sub_nonneg.mpr hle) hls, supply_cons, sub_sub]
      · rw [short_part hpos hlt, supply_cons, max_eq_left (by linarith)]

/-! ## Two draws in a row -/

/-- The rest of a lot, drawn whole, is charged what the lot was not charged yet. -/
theorem share_rest {l : Lot α τ} (hq : q < l.amount) : (l.rest q).share (l.rest q).amount = l.cost - l.share q :=
  share_whole (sub_pos.mpr hq).ne'

/-- A part of the rest of a lot is charged what it would be charged of the lot. -/
theorem share_rest_part {l : Lot α τ} (hpos : 0 < q) (hq : q < l.amount) (r : α) :
    l.share q + (l.rest q).share r = l.share (q + r) := by
  have hl : l.amount ≠ 0 := (hpos.trans hq).ne'
  have hrest : l.amount - q ≠ 0 := (sub_pos.mpr hq).ne'
  simp only [Lot.share, Lot.rest]
  field_simp

theorem rest_rest {l : Lot α τ} (hpos : 0 < q) (hq : q < l.amount) (r : α) :
    (l.rest q).rest r = l.rest (q + r) := by
  have hshare := share_rest_part hpos hq r
  have hamount : l.amount - q - r = l.amount - (q + r) := sub_sub _ _ _
  have hcost : l.cost - l.share q - (l.rest q).share r = l.cost - l.share (q + r) := by rw [sub_sub, hshare]
  calc (l.rest q).rest r = ⟨l.amount - q - r, l.cost - l.share q - (l.rest q).share r, l.time⟩ := rfl
    _ = l.rest (q + r) := by rw [hamount, hcost, Lot.rest]

variable (lots) in
/-- Two draws in a row leave and charge what one draw of the sum does, and fall
short of the same. -/
theorem draw_add {r : α} (hq : 0 ≤ q) (hr : 0 < r) :
    (draw (draw lots q).left r).left = (draw lots (q + r)).left ∧
      (draw lots q).cost + (draw (draw lots q).left r).cost = (draw lots (q + r)).cost ∧
      short lots q + short (draw lots q).left r = short lots (q + r) := by
  induction lots generalizing q with
  | nil => simp [draw, short]
  | cons l ls ih =>
    rcases hq.eq_or_lt with rfl | hpos
    · rw [draw_idle le_rfl, short_idle le_rfl, zero_add, zero_add, zero_add]
      exact ⟨rfl, rfl, rfl⟩
    · have hsum : 0 < q + r := add_pos hpos hr
      rcases le_or_gt l.amount q with hle | hlt
      · -- the first draw passes the lot, and the second starts behind it
        have hsplit : q + r - l.amount = q - l.amount + r := by ring
        obtain ⟨hleft, hcost, hshort⟩ := ih (sub_nonneg.mpr hle)
        rw [draw_whole hpos hle, draw_whole hsum (by linarith), short_whole hpos hle,
          short_whole hsum (by linarith), hsplit]
        exact ⟨hleft, by rw [← hcost, add_assoc], hshort⟩
      · have hl : l.amount ≠ 0 := (hpos.trans hlt).ne'
        rw [draw_part hpos hlt, short_part hpos hlt, zero_add]
        rcases le_or_gt (l.rest q).amount r with hle | hlt'
        · -- the second draw takes the rest of the lot
          have hwhole : l.amount ≤ q + r := by rw [Lot.rest] at hle; linarith
          have hsplit : r - (l.rest q).amount = q + r - l.amount := by rw [Lot.rest]; ring
          have hshare : l.share q + (l.cost - l.share q) = l.share l.amount := by rw [share_whole hl]; ring
          rw [draw_whole hr hle, draw_whole hsum hwhole, short_whole hr hle, short_whole hsum hwhole, hsplit,
            share_rest hlt, ← hshare]
          exact ⟨rfl, by ring, rfl⟩
        · -- both draws end in the lot
          have hpart : q + r < l.amount := by rw [Lot.rest] at hlt'; linarith
          rw [draw_part hr hlt', draw_part hsum hpart, short_part hr hlt', short_part hsum hpart,
            rest_rest hpos hlt, ← share_rest_part hpos hlt]
          exact ⟨rfl, rfl, rfl⟩

/-! ## Cost -/

/-- A draw of nothing passes no lot. -/
theorem stranded_idle (h : Stocked lots) (hq : q ≤ 0) : stranded lots q = 0 := by
  induction lots generalizing q with
  | nil => rfl
  | cons l ls ih =>
    have hl : 0 ≤ l.amount := h l List.mem_cons_self
    rw [stranded, if_neg (fun hc => absurd hc.2 (not_lt.mpr hq)), zero_add]
    exact ih (fun m hm => h m (List.mem_cons_of_mem _ hm)) (by linarith)

/-- The cost balances up to what is stranded. -/
theorem worth_draw (h : Stocked lots) :
    worth (draw lots q).left + (draw lots q).cost + stranded lots q = worth lots := by
  induction lots generalizing q with
  | nil => simp [draw, stranded]
  | cons l ls ih =>
    have hls : Stocked ls := fun m hm => h m (List.mem_cons_of_mem _ hm)
    have hl : 0 ≤ l.amount := h l List.mem_cons_self
    rcases le_or_gt q 0 with hq | hq
    · rw [draw_idle hq, stranded_idle h hq]
      ring
    · rcases le_or_gt l.amount q with hle | hlt
      · have hrest := ih (q := q - l.amount) hls
        rw [draw_whole hq hle, stranded, worth_cons]
        -- an empty lot is where the charge and the cost of a whole lot differ
        by_cases hempty : l.amount = 0
        · rw [if_pos ⟨hempty, hq⟩, share_empty hempty]
          linarith
        · rw [if_neg (fun hc => hempty hc.1), share_whole hempty]
          linarith
      · have hne : l.amount ≠ 0 := (hq.trans hlt).ne'
        rw [draw_part hq hlt, stranded, if_neg (fun hc => hne hc.1), worth_cons, worth_cons, Lot.rest,
          stranded_idle hls (sub_nonpos.mpr hlt.le)]
        ring

/-- Two draws strand what one draw of the sum does. -/
theorem stranded_add (h : Stocked lots) {r : α} (hq : 0 ≤ q) (hr : 0 ≤ r) :
    stranded lots (q + r) = stranded lots q + stranded (draw lots q).left r := by
  induction lots generalizing q with
  | nil => simp [draw, stranded]
  | cons l ls ih =>
    have hls : Stocked ls := fun m hm => h m (List.mem_cons_of_mem _ hm)
    have hl : 0 ≤ l.amount := h l List.mem_cons_self
    rcases hq.eq_or_lt with rfl | hpos
    · rw [draw_idle le_rfl, stranded_idle h le_rfl, zero_add, zero_add]
    · rcases le_or_gt l.amount q with hle | hlt
      · -- the first draw passes the lot, and the second starts behind it
        have hsplit : q + r - l.amount = q - l.amount + r := by ring
        have hboth : (l.amount = 0 ∧ 0 < q + r) ↔ (l.amount = 0 ∧ 0 < q) :=
          ⟨fun hc => ⟨hc.1, hpos⟩, fun hc => ⟨hc.1, by linarith⟩⟩
        rw [draw_whole hpos hle, stranded, stranded, hsplit, ih hls (sub_nonneg.mpr hle), if_congr hboth rfl rfl]
        ring
      · -- the lot is not empty before or after the first draw
        have hne : l.amount ≠ 0 := (hpos.trans hlt).ne'
        have hrest : (l.rest q).amount ≠ 0 := (sub_pos.mpr hlt).ne'
        have hsplit : q + r - l.amount = r - (l.rest q).amount := by rw [Lot.rest]; ring
        rw [draw_part hpos hlt, stranded, stranded, stranded, if_neg (fun hc => hne hc.1),
          if_neg (fun hc => hne hc.1), if_neg (fun hc => hrest hc.1),
          stranded_idle hls (sub_nonpos.mpr hlt.le), hsplit]
        ring

/-- A new lot is passed when the draw exceeds what is before it. -/
theorem stranded_push (l : Lot α τ) :
    stranded (lots ++ [l]) q = stranded lots q + if l.amount = 0 ∧ supply lots < q then l.cost else 0 := by
  induction lots generalizing q with
  | nil => rw [List.nil_append, stranded, stranded, stranded, supply_nil, zero_add, add_zero]
  | cons m ls ih =>
    have hlt : (l.amount = 0 ∧ supply ls < q - m.amount) ↔ (l.amount = 0 ∧ m.amount + supply ls < q) := by
      rw [lt_sub_iff_add_lt']
    rw [List.cons_append, stranded, ih, stranded, supply_cons, add_assoc, if_congr hlt rfl rfl]

end

end FifoLots
