import Mathlib.Algebra.Group.Nat.Defs
import Mathlib.Data.List.Lex
import WhaleIntelligence.Lib.Canon

/- Length-framed byte encodings: a field is its length in eight little-endian
   bytes followed by its bytes, and a message is a sequence of framed fields.

   A frame is cut off the front of a message without ambiguity as long as the
   field is shorter than `2^64` bytes (`frame_append_inj`): the length prefix is
   what makes the cut, so no byte inside a field can be read as a boundary. The
   last field of a message needs no bound (`frame_injective`), and a field of
   any length whose frame is followed by a bounded tail needs none either
   (`frame_pair_inj`): total lengths then decide the cut.

   A set field is the frames of its canonical list (`setBytes`), and two set
   fields agree exactly on equal sets (`setBytes_eq_iff`). -/
namespace Framing

abbrev Bytes := List UInt8

/-- `w` little-endian bytes of `n`, the higher ones dropped. -/
def leBytes : Nat → Nat → Bytes
  | 0, _ => []
  | w + 1, n => UInt8.ofNat n :: leBytes w (n / 256)

@[simp] theorem leBytes_length : ∀ w n : Nat, (leBytes w n).length = w
  | 0, _ => rfl
  | w + 1, n => by rw [leBytes, List.length_cons, leBytes_length w]

theorem leBytes_mod_eq : ∀ {w m n : Nat}, leBytes w m = leBytes w n → m % 256^w = n % 256^w
  | 0, m, n, _ => by rw [Nat.pow_zero, Nat.mod_one, Nat.mod_one]
  | w + 1, m, n, h => by
    simp only [leBytes, List.cons.injEq] at h
    have hlow : m % 256 = n % 256 := by
      have := congrArg UInt8.toNat h.1
      simpa using this
    have hhigh := leBytes_mod_eq h.2
    rw [Nat.pow_succ, Nat.mul_comm, Nat.mod_mul, Nat.mod_mul, hlow, hhigh]

theorem leBytes_injective {w m n : Nat} (hm : m < 256^w) (hn : n < 256^w)
    (h : leBytes w m = leBytes w n) : m = n := by
  have := leBytes_mod_eq h
  rwa [Nat.mod_eq_of_lt hm, Nat.mod_eq_of_lt hn] at this

/-- One field: its length as a 64-bit little-endian word, then its bytes. -/
def frame (b : Bytes) : Bytes := leBytes 8 b.length ++ b

@[simp] theorem frame_length (b : Bytes) : (frame b).length = 8 + b.length := by
  rw [frame, List.length_append, leBytes_length]

/-- A field that a 64-bit length describes. -/
def Fits (b : Bytes) : Prop := b.length < 2^64

instance (b : Bytes) : Decidable (Fits b) := inferInstanceAs (Decidable (_ < _))

/-- Two messages that start with a frame agree on the length prefix and on what follows it. -/
theorem frame_append_split {a b x y : Bytes} (h : frame a ++ x = frame b ++ y) :
    a.length % 2^64 = b.length % 2^64 ∧ a ++ x = b ++ y := by
  simp only [frame, List.append_assoc] at h
  obtain ⟨hlen, hrest⟩ := List.append_inj h (by rw [leBytes_length, leBytes_length])
  exact ⟨leBytes_mod_eq hlen, hrest⟩

/-- A bounded field is cut off the front of a message without ambiguity. -/
theorem frame_append_inj {a b x y : Bytes} (ha : Fits a) (hb : Fits b)
    (h : frame a ++ x = frame b ++ y) : a = b ∧ x = y := by
  obtain ⟨hmod, hrest⟩ := frame_append_split h
  have hlen : a.length = b.length := by
    rwa [Nat.mod_eq_of_lt ha, Nat.mod_eq_of_lt hb] at hmod
  exact List.append_inj hrest hlen

/-- The last field of a message needs no bound. -/
theorem frame_injective {a b : Bytes} (h : frame a = frame b) : a = b :=
  (List.append_inj h (by rw [leBytes_length, leBytes_length])).2

/-- A field of any length, then a part of fixed width, then a bounded last field. -/
theorem frame_pair_inj {s t m n p q : Bytes} (hmn : m.length = n.length) (hp : Fits p) (hq : Fits q)
    (h : frame s ++ (m ++ frame p) = frame t ++ (n ++ frame q)) : s = t ∧ m = n ∧ p = q := by
  obtain ⟨hmod, hrest⟩ := frame_append_split h
  have htotal := congrArg List.length hrest
  simp only [List.length_append, frame_length] at htotal
  -- The two lengths of the first field agree modulo 2^64, so those of the last do, and those are bounded.
  have hlen : s.length = t.length := by
    have hp' : p.length < 2^64 := hp
    have hq' : q.length < 2^64 := hq
    omega
  obtain ⟨hst, hrest⟩ := List.append_inj hrest hlen
  obtain ⟨hm, hfr⟩ := List.append_inj hrest hmn
  exact ⟨hst, hm, frame_injective hfr⟩

/-- Every item of `l` fits its length prefix. -/
def AllFit (l : List Bytes) : Prop := ∀ b ∈ l, Fits b

theorem frames_injective : ∀ {l l' : List Bytes}, AllFit l → AllFit l' →
    l.flatMap frame = l'.flatMap frame → l = l'
  | [], [], _, _, _ => rfl
  | [], b :: l', _, _, h => by
    have := congrArg List.length h
    simp only [List.flatMap_nil, List.length_nil, List.flatMap_cons, List.length_append, frame_length] at this
    omega
  | a :: l, [], _, _, h => by
    have := congrArg List.length h
    simp only [List.flatMap_nil, List.length_nil, List.flatMap_cons, List.length_append, frame_length] at this
    omega
  | a :: l, b :: l', ha, hb, h => by
    simp only [List.flatMap_cons] at h
    obtain ⟨hab, hrest⟩ := frame_append_inj (ha a List.mem_cons_self) (hb b List.mem_cons_self) h
    rw [hab, frames_injective (fun c hc => ha c (List.mem_cons_of_mem _ hc))
      (fun c hc => hb c (List.mem_cons_of_mem _ hc)) hrest]

/-! ## Sets of byte strings -/

/-- The lexicographic order on byte strings. -/
def byteLe (a b : Bytes) : Prop := a.map UInt8.toNat ≤ b.map UInt8.toNat

instance : DecidableRel byteLe := fun a b => inferInstanceAs (Decidable (a.map UInt8.toNat ≤ b.map UInt8.toNat))

theorem toNat_map_injective {a b : Bytes} (h : a.map UInt8.toNat = b.map UInt8.toNat) : a = b :=
  List.map_injective_iff.mpr (fun _ _ => UInt8.toNat_inj.mp) h

instance : Std.Total byteLe := ⟨fun a b => le_total (a.map UInt8.toNat) (b.map UInt8.toNat)⟩
instance : IsTrans Bytes byteLe := ⟨fun _ _ _ hab hbc => le_trans hab hbc⟩
instance : Std.Antisymm byteLe := ⟨fun _ _ hab hba => toNat_map_injective (le_antisymm hab hba)⟩

/-- A set of byte strings: its members in order, each once, each framed. -/
def setBytes (items : List Bytes) : Bytes := (Canon.canon byteLe items).flatMap frame

theorem setBytes_congr {l l' : List Bytes} (h : ∀ b, b ∈ l ↔ b ∈ l') : setBytes l = setBytes l' := by
  rw [setBytes, setBytes, (Canon.canon_eq_iff byteLe).mpr h]

theorem setBytes_eq_iff {l l' : List Bytes} (hl : AllFit l) (hl' : AllFit l') :
    setBytes l = setBytes l' ↔ ∀ b, b ∈ l ↔ b ∈ l' := by
  refine ⟨fun h => ?_, setBytes_congr⟩
  rw [← Canon.canon_eq_iff byteLe]
  exact frames_injective (fun b hb => hl b ((Canon.mem_canon byteLe).mp hb))
    (fun b hb => hl' b ((Canon.mem_canon byteLe).mp hb)) h

end Framing
