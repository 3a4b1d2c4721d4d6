import Lagopus.Pipeline.Execute
import Lagopus.Lib.Shares

/-!
# Select groups

`group_select_bucket` takes the packet's hash modulo the sum of the weights of the buckets, and goes
through the buckets until the running sum is past it.  When all weights are zero the buckets are counted
instead.

* `BucketList`: the buckets of a group; weights have sixteen bits, and there are fewer buckets than
  would make their sum overflow;
* `groupSelectIndex`: which bucket is chosen, with the sums as the code computes them;
* `groupSelectBucket_eq`: it is the bucket that the pipeline executes;
* `select_by_weight`: over a period of hashes every bucket is chosen as often as its weight says.
-/

namespace Lagopus

open Nat

/-- The buckets of a group.  A group mod has less than 65536 bytes, a bucket at least 16. -/
structure BucketList where
  buckets : List Bucket
  weights : ∀ b ∈ buckets, b.weight < 2 ^ 16
  few : buckets.length < 2 ^ 48

/-- The sum of the weights, a `uint64_t`. -/
def totalWeight (buckets : List Bucket) : Nat :=
  buckets.foldl (fun total b => (total + b.weight) % 2 ^ 64) 0

/-- The number of buckets, counted in a `uint64_t`. -/
def totalCount (buckets : List Bucket) : Nat :=
  buckets.foldl (fun total _ => (total + 1) % 2 ^ 64) 0

/-- The bucket at which the loop over the running sum stops. -/
def selectLoop (weight : Bucket → Nat) (sel : Nat) : Nat → List Bucket → Option Nat
  | _, [] => none
  | sum, b :: bs =>
    let sum := (sum + weight b) % 2 ^ 64
    if sel ≤ sum then some 0 else (selectLoop weight sel sum bs).map (· + 1)

/-- The hash of a packet, computed when it is not there. -/
def packetHash (hash64 calcPacketHash : Nat) : Nat := if hash64 = 0 then calcPacketHash else hash64

/-- `group_select_bucket`, as the index of the bucket it returns. -/
def groupSelectIndex (hash64 calcPacketHash : Nat) (buckets : List Bucket) : Option Nat :=
  if totalWeight buckets = 0 then
    if totalCount buckets = 0 then none
    else
      selectLoop (fun _ => 1)
        (packetHash hash64 calcPacketHash % totalCount buckets + 1) 0 buckets
  else
    selectLoop Bucket.weight (packetHash hash64 calcPacketHash % totalWeight buckets + 1) 0 buckets

/-! ## Sums that do not overflow -/

variable {weight : Bucket → Nat}

theorem foldl_weight_eq {sum : Nat} {bs : List Bucket} (h : sum + (bs.map weight).sum < 2 ^ 64) :
    bs.foldl (fun total b => (total + weight b) % 2 ^ 64) sum = sum + (bs.map weight).sum := by
  induction bs generalizing sum with
  | nil => rfl
  | cons b bs ih =>
    rw [List.map_cons, List.sum_cons, ← add_assoc] at h ⊢
    rw [List.foldl_cons, mod_eq_of_lt (by omega), ih h]

theorem selectLoop_eq {sel sum : Nat} {bs : List Bucket} (h : sum + (bs.map weight).sum < 2 ^ 64) :
    selectLoop weight sel sum bs = Shares.position weight sel sum bs := by
  induction bs generalizing sum with
  | nil => rfl
  | cons b bs ih =>
    rw [List.map_cons, List.sum_cons, ← add_assoc] at h
    simp only [selectLoop, Shares.position, mod_eq_of_lt (show sum + weight b < 2 ^ 64 by omega), ih h]

theorem bucketAt_eq (weight : Bucket → Nat) (sel sum : Nat) (bs : List Bucket) :
    bucketAt weight sel sum bs = (Shares.position weight sel sum bs).bind (bs[·]?) := by
  induction bs generalizing sum with
  | nil => rfl
  | cons b bs ih =>
    rw [bucketAt, Shares.position]
    split
    · rfl
    · rw [ih, Option.bind_map]
      rfl

namespace BucketList

variable (l : BucketList) {k h i : Nat}

theorem sum_le {weight : Bucket → Nat} {bs : List Bucket} (h : ∀ b ∈ bs, weight b ≤ k) :
    (bs.map weight).sum ≤ bs.length * k := by
  have := List.sum_le_card_nsmul (bs.map weight) k fun n hn => by
    obtain ⟨b, hb, rfl⟩ := List.mem_map.1 hn
    exact h b hb
  simpa using this

theorem sum_weight_lt : (l.buckets.map Bucket.weight).sum < 2 ^ 64 := by
  have hle := sum_le (k := 2 ^ 16 - 1) fun b hb => le_sub_one_of_lt (l.weights b hb)
  have hfew := l.few
  omega

theorem totalWeight_eq : totalWeight l.buckets = (l.buckets.map Bucket.weight).sum := by
  have hlt := l.sum_weight_lt
  rw [totalWeight, foldl_weight_eq (by omega), zero_add]

theorem sum_one : (l.buckets.map fun _ => 1).sum = l.buckets.length := by simp

theorem totalCount_eq : totalCount l.buckets = l.buckets.length := by
  have hfew := l.few
  rw [totalCount, foldl_weight_eq (by rw [sum_one]; omega), sum_one, zero_add]

theorem groupSelectIndex_eq (hash64 calcPacketHash : Nat) :
    groupSelectIndex hash64 calcPacketHash l.buckets =
      if (l.buckets.map Bucket.weight).sum = 0 then
        if l.buckets.length = 0 then none
        else
          Shares.position (fun _ => 1) (packetHash hash64 calcPacketHash % l.buckets.length + 1) 0
            l.buckets
      else
        Shares.position Bucket.weight
          (packetHash hash64 calcPacketHash % (l.buckets.map Bucket.weight).sum + 1) 0
          l.buckets := by
  have hweight := l.sum_weight_lt
  have hfew := l.few
  rw [groupSelectIndex, totalWeight_eq, totalCount_eq, selectLoop_eq (by rw [sum_one]; omega),
    selectLoop_eq (by omega)]

/-- **The bucket that the pipeline executes** is the one that the code chooses. -/
theorem groupSelectBucket_eq (hash64 calcPacketHash : Nat) :
    groupSelectBucket (packetHash hash64 calcPacketHash) l.buckets =
      (groupSelectIndex hash64 calcPacketHash l.buckets).bind (l.buckets[·]?) := by
  rw [groupSelectIndex_eq]
  simp only [groupSelectBucket, bucketAt_eq]
  split
  · split <;> rfl
  · rfl

theorem exists_groupSelectIndex (hne : l.buckets ≠ []) (hash64 calcPacketHash : Nat) :
    ∃ i < l.buckets.length, groupSelectIndex hash64 calcPacketHash l.buckets = some i := by
  have hlength : 0 < l.buckets.length := List.length_pos_iff.2 hne
  rw [groupSelectIndex_eq]
  split
  · rw [if_neg hlength.ne']
    refine Shares.exists_position (succ_pos _) ?_
    rw [sum_one, zero_add]
    exact mod_lt _ hlength
  · next hpos =>
    refine Shares.exists_position (succ_pos _) ?_
    rw [zero_add]
    exact mod_lt _ (pos_of_ne_zero hpos)

/-- Packets with the hashes of a period. -/
def Period (hash64 calcPacketHash : Nat → Nat) (h n : Nat) : Prop :=
  n ∣ h ∧ h + n - 1 < 2 ^ 64 ∧ ∀ k < n, packetHash (hash64 k) (calcPacketHash k) = h + k

variable {hash64 calcPacketHash : Nat → Nat}

theorem Period.mod {n : Nat} (hp : Period hash64 calcPacketHash h n) (hk : k < n) :
    packetHash (hash64 k) (calcPacketHash k) % n = k := by
  obtain ⟨⟨m, rfl⟩, -, hhash⟩ := hp
  rw [hhash k hk, mul_add_mod, mod_eq_of_lt hk]

/-- How many packets of a period get a bucket. -/
def hits (hash64 calcPacketHash : Nat → Nat) (n i : Nat) : Nat :=
  ((Finset.range n).filter fun k =>
    groupSelectIndex (hash64 k) (calcPacketHash k) l.buckets = some i).card

theorem hits_of_weights (hpos : (l.buckets.map Bucket.weight).sum ≠ 0)
    (hp : Period hash64 calcPacketHash h (l.buckets.map Bucket.weight).sum) (hi : i < l.buckets.length) :
    l.hits hash64 calcPacketHash (l.buckets.map Bucket.weight).sum i = l.buckets[i].weight := by
  rw [← Shares.card_position (w := Bucket.weight) hi, hits]
  congr 1
  refine Finset.filter_congr fun k hk => ?_
  rw [groupSelectIndex_eq, if_neg hpos, hp.mod (Finset.mem_range.1 hk)]

theorem hits_of_count (hzero : (l.buckets.map Bucket.weight).sum = 0)
    (hp : Period hash64 calcPacketHash h l.buckets.length) (hi : i < l.buckets.length) :
    l.hits hash64 calcPacketHash l.buckets.length i = 1 := by
  have hlength : l.buckets.length ≠ 0 := by omega
  have hshare := Shares.card_position (w := fun _ : Bucket => 1) hi
  rw [sum_one] at hshare
  rw [← hshare, hits]
  congr 1
  refine Finset.filter_congr fun k hk => ?_
  rw [groupSelectIndex_eq, if_pos hzero, if_neg hlength, hp.mod (Finset.mem_range.1 hk)]

/-- **Select groups split traffic by weight.** -/
theorem select_by_weight (hne : l.buckets ≠ []) :
    totalWeight l.buckets = (l.buckets.map Bucket.weight).sum ∧
      (∀ hash64 calcPacketHash, ∃ i < l.buckets.length,
        groupSelectIndex hash64 calcPacketHash l.buckets = some i) ∧
      (totalWeight l.buckets ≠ 0 → ∀ hash64 calcPacketHash h,
        Period hash64 calcPacketHash h (totalWeight l.buckets) →
        ∀ i (hi : i < l.buckets.length),
          l.hits hash64 calcPacketHash (totalWeight l.buckets) i = l.buckets[i].weight) ∧
      (totalWeight l.buckets = 0 → ∀ hash64 calcPacketHash h,
        Period hash64 calcPacketHash h l.buckets.length →
        ∀ i < l.buckets.length, l.hits hash64 calcPacketHash l.buckets.length i = 1) := by
  rw [totalWeight_eq]
  refine ⟨rfl, l.exists_groupSelectIndex hne, ?_, ?_⟩
  · intro hpos hash64 calcPacketHash h hp i hi
    exact l.hits_of_weights hpos hp hi
  · intro hzero hash64 calcPacketHash h hp i hi
    exact l.hits_of_count hzero hp hi

/-- A bucket of weight 2, one that is never chosen, and one of weight 1. -/
def sample : BucketList :=
  ⟨[{ weight := 2 }, { weight := 0 }, { weight := 1 }], by decide, by decide⟩

theorem select_by_weight_of_sample :
    sample.hits (fun k => 3 + k) (fun _ => 0) (totalWeight sample.buckets) 1 = 0 :=
  (sample.select_by_weight (List.cons_ne_nil _ _)).2.2.1 (by decide) _ _ 3
    ⟨by decide, by decide, by decide⟩ 1 (by decide)

end BucketList

end Lagopus
