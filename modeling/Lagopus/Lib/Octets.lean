import Mathlib.Tactic

/-!
# Numbers in byte strings

* `Octets.toNat`: the number that a byte string spells, the most significant byte first;
* `Octets.ofNat`: the bytes that spell a number;
* `Octets.Block`: a byte string of a given length;
* `Octets.exists_chunks`, `Octets.chunks_unique`: byte strings of several elements, cut between them;
* `toNat_ofNat`, `ofNat_toNat`: they are inverse to each other as far as the width allows.
-/

abbrev Octet := BitVec 8

namespace Octets

/-- The number that a byte string spells, the most significant byte first. -/
def toNat (bytes : List Octet) : Nat := bytes.foldl (fun acc b => acc * 256 + b.toNat) 0

variable (l : List Octet)

theorem foldl_lt (acc : Nat) :
    l.foldl (fun acc b => acc * 256 + b.toNat) acc < (acc + 1) * 256 ^ l.length := by
  induction l generalizing acc with
  | nil => simp
  | cons b l ih =>
    have hb := b.isLt
    calc List.foldl (fun acc b => acc * 256 + b.toNat) acc (b :: l)
        < (acc * 256 + b.toNat + 1) * 256 ^ l.length := ih _
      _ ≤ ((acc + 1) * 256) * 256 ^ l.length := Nat.mul_le_mul_right _ (by omega)
      _ = (acc + 1) * 256 ^ (b :: l).length := by rw [List.length_cons, Nat.pow_succ]; ring

theorem toNat_lt : toNat l < 256 ^ l.length := by
  have h := foldl_lt l 0
  rwa [Nat.zero_add, Nat.one_mul] at h

theorem foldl_acc (acc : Nat) :
    l.foldl (fun acc b => acc * 256 + b.toNat) acc = acc * 256 ^ l.length + toNat l := by
  induction l generalizing acc with
  | nil => simp [toNat]
  | cons b l ih =>
    rw [toNat, List.foldl_cons, List.foldl_cons, ih, ih (0 * 256 + b.toNat), List.length_cons]
    ring

@[simp]
theorem toNat_nil : toNat [] = 0 := rfl

theorem toNat_cons (b : Octet) (l : List Octet) : toNat (b :: l) = b.toNat * 256 ^ l.length + toNat l := by
  rw [toNat, List.foldl_cons, foldl_acc, Nat.zero_mul, Nat.zero_add]

/-- The number in `n` bytes, the most significant byte first. -/
def ofNat : Nat → Nat → List Octet
  | 0, _ => []
  | n + 1, v => BitVec.ofNat 8 (v / 256 ^ n) :: ofNat n v

@[simp]
theorem length_ofNat (n v : Nat) : (ofNat n v).length = n := by
  induction n with
  | zero => rfl
  | succ n ih => simp [ofNat, ih]

theorem toNat_ofNat (n v : Nat) : toNat (ofNat n v) = v % 256 ^ n := by
  induction n with
  | zero => simp [ofNat, Nat.mod_one]
  | succ n ih =>
    have hsplit : v % 256 ^ (n + 1) = v % 256 ^ n + 256 ^ n * (v / 256 ^ n % 256) := Nat.mod_mul
    rw [ofNat, toNat_cons, length_ofNat, ih, BitVec.toNat_ofNat, hsplit, Nat.mul_comm, Nat.add_comm]

theorem ofNat_add_mul (n v k : Nat) : ofNat n (k * 256 ^ n + v) = ofNat n v := by
  induction n generalizing k with
  | zero => rfl
  | succ n ih =>
    have hpos : 0 < 256 ^ n := by positivity
    rw [ofNat, ofNat, Nat.pow_succ, show k * (256 ^ n * 256) + v = (k * 256) * 256 ^ n + v by ring, ih]
    congr 1
    apply BitVec.eq_of_toNat_eq
    rw [BitVec.toNat_ofNat, BitVec.toNat_ofNat, Nat.add_comm, Nat.add_mul_div_right _ _ hpos]
    omega

theorem ofNat_toNat : ofNat l.length (toNat l) = l := by
  induction l with
  | nil => rfl
  | cons b l ih =>
    have hpos : 0 < 256 ^ l.length := by positivity
    rw [List.length_cons, ofNat, toNat_cons, ofNat_add_mul, ih, Nat.add_comm,
      Nat.add_mul_div_right _ _ hpos, Nat.div_eq_of_lt (toNat_lt l), Nat.zero_add, BitVec.ofNat_toNat,
      BitVec.setWidth_eq]

/-- A byte string of a given length. -/
structure Block (n : Nat) where
  bytes : List Octet
  length_eq : bytes.length = n
deriving DecidableEq

attribute [simp] Block.length_eq

@[ext]
theorem Block.ext {n : Nat} {v w : Block n} (h : v.bytes = w.bytes) : v = w := by
  cases v
  cases w
  cases h
  rfl

/-- The block of zeros. -/
def Block.zero (n : Nat) : Block n := ⟨List.replicate n 0, List.length_replicate⟩

/-- The number in the bytes `i`, …, `i + n - 1`. -/
def field (l : List Octet) (i n : Nat) : Nat := toNat ((l.drop i).take n)

/-! ## Chunks -/

section Chunks

variable {α β : Type} {R : β → List Octet → Prop} {bytes : α → List Octet}

theorem exists_chunks {f : α → β} {as : List α} (h : ∀ a ∈ as, R (f a) (bytes a)) :
    ∃ cs, List.Forall₂ R (as.map f) cs ∧ as.flatMap bytes = cs.flatten := by
  refine ⟨as.map bytes, ?_, rfl⟩
  rw [List.forall₂_map_left_iff, List.forall₂_map_right_iff, List.forall₂_same]
  exact h

theorem chunks_unique {bytes : β → List Octet} {as : List β} {cs : List (List Octet)}
    (h : List.Forall₂ R as cs) (hflat : cs.flatten = as.flatMap bytes)
    (hlen : ∀ a ∈ as, ∀ c, R a c → c.length = (bytes a).length) : ∀ a ∈ as, R a (bytes a) := by
  induction h with
  | nil => simp
  | @cons a c as cs ha _ ih =>
    rw [List.flatten_cons, List.flatMap_cons] at hflat
    obtain ⟨rfl, hrest⟩ := List.append_inj hflat (hlen a List.mem_cons_self c ha)
    exact List.forall_mem_cons.2 ⟨ha, ih hrest fun a' ha' => hlen a' (List.mem_cons_of_mem _ ha')⟩

end Chunks

end Octets
