import Lagopus.Datastore.Port

/-!
# The difference of two attributes

* `Port.queueNamesInfoGet`: the loops of `ofp_port_queue_names_info_get`, which compute `queueNamesInfo`;
* `names_exact`: they divide the names, and `datastore_names_equals` does not mind the order.
-/

namespace Lagopus.Datastore

open List

/-- A name is added unless it is there. -/
def addName (names : List Name) (n : Name) : List Name := if n ∈ names then names else names ++ [n]

namespace NamesInfo

variable (info : NamesInfo) (n : Name)

/-- A current name, and then a modified one. -/
def sortCurrent (modified : List Name) : NamesInfo :=
  if n ∈ modified then { info with notChange := addName info.notChange n }
  else { info with del := addName info.del n }

def sortModified (current : List Name) : NamesInfo :=
  if n ∈ current then info else { info with add := addName info.add n }

end NamesInfo

def Port.queueNamesInfoGet (c : Conf PortAttr) : NamesInfo :=
  match c.modified with
  | none => .empty
  | some m =>
    let current := c.current.elim [] PortAttr.queues
    m.queues.foldl (·.sortModified · current) (current.foldl (·.sortCurrent · m.queues) .empty)

/-- Each name is in one list, once. -/
structure NamesInfo.Divides (info : NamesInfo) (current modified : List Name) : Prop where
  add : info.add.Nodup ∧ ∀ n, n ∈ info.add ↔ n ∈ modified ∧ n ∉ current
  del : info.del.Nodup ∧ ∀ n, n ∈ info.del ↔ n ∈ current ∧ n ∉ modified
  notChange : info.notChange.Nodup ∧ ∀ n, n ∈ info.notChange ↔ n ∈ current ∧ n ∈ modified

variable {l current modified : List Name}

theorem addName_eraseDups (n : Name) : addName l.eraseDups n = (l ++ [n]).eraseDups := by
  simp only [addName, eraseDups_append, mem_eraseDups]
  by_cases hn : n ∈ l <;> simp [hn, removeAll, eraseDups_cons]

theorem nodup_eraseDups (l : List Name) : l.eraseDups.Nodup := by
  induction l using reverseRecOn with
  | nil => exact nodup_nil
  | append_singleton l n ih =>
    rw [← addName_eraseDups, addName]
    split_ifs with hn
    · exact ih
    · exact nodup_append.2 ⟨ih, nodup_singleton n, fun a ha b hb => by rintro rfl; simp_all⟩

theorem foldl_current : current.foldl (·.sortCurrent · modified) NamesInfo.empty =
    ⟨(current.filter (· ∈ modified)).eraseDups, [], (current.filter (· ∉ modified)).eraseDups⟩ := by
  induction current using reverseRecOn with
  | nil => rfl
  | append_singleton l n ih =>
    rw [foldl_append, ih]
    by_cases hn : n ∈ modified <;> simp [NamesInfo.sortCurrent, hn, addName_eraseDups]

theorem foldl_modified (same gone : List Name) :
    modified.foldl (·.sortModified · current) (⟨same, [], gone⟩ : NamesInfo) =
      ⟨same, (modified.filter (· ∉ current)).eraseDups, gone⟩ := by
  induction modified using reverseRecOn with
  | nil => rfl
  | append_singleton l n ih =>
    rw [foldl_append, ih]
    by_cases hn : n ∈ current <;> simp [NamesInfo.sortModified, hn, addName_eraseDups]

theorem Port.queueNamesInfoGet_eq (c : Conf PortAttr) : queueNamesInfoGet c = queueNamesInfo c := by
  unfold queueNamesInfoGet queueNamesInfo
  cases c.modified with
  | none => rfl
  | some m =>
    simp only [foldl_current]
    exact foldl_modified _ _

theorem divides_ofLists : (NamesInfo.ofLists current modified).Divides current modified := by
  refine ⟨⟨nodup_eraseDups _, ?_⟩, ⟨nodup_eraseDups _, ?_⟩, nodup_eraseDups _, ?_⟩ <;>
    simp [NamesInfo.ofLists, mem_eraseDups]

/-- **The difference is exact.** -/
theorem names_exact (c : Conf PortAttr) {names₀ names₁ : List Name} (h₀ : names₀.Nodup) (h₁ : names₁.Nodup) :
    (∀ m, c.modified = some m →
      (Port.queueNamesInfoGet c).Divides (c.current.elim [] PortAttr.queues) m.queues) ∧
    (c.modified = none → (Port.queueNamesInfoGet c).add = []) ∧
    (namesEqual names₀ names₁ = true ↔ ∀ n, n ∈ names₀ ↔ n ∈ names₁) := by
  rw [Port.queueNamesInfoGet_eq, Port.queueNamesInfo]
  refine ⟨fun m hm => ?_, fun hm => ?_, ?_⟩
  · rw [hm]
    exact divides_ofLists
  · rw [hm]
    rfl
  · rw [namesEqual, decide_eq_true_eq]
    constructor
    · rintro ⟨hlen, hsub⟩ n
      exact ((subperm_of_subset h₀ hsub).perm_of_length_le hlen.ge).mem_iff
    · intro hiff
      exact ⟨((perm_ext_iff_of_nodup h₀ h₁).2 hiff).length_eq, fun n hn => (hiff n).1 hn⟩

/-- Of two queues one stays and one goes, and one comes. -/
theorem names_exact_of_two : NamesInfo.Divides ⟨["a"], ["b"], ["c"]⟩ ["c", "a"] ["a", "b"] ∧
    namesEqual ["c", "a"] ["a", "c"] = true := by
  have h := names_exact ⟨some ⟨0, none, none, ["c", "a"]⟩, some ⟨0, none, none, ["a", "b"]⟩,
    false, false, false, false, false⟩ (show ["c", "a"].Nodup by decide) (show ["a", "c"].Nodup by decide)
  exact ⟨h.1 _ rfl, h.2.2.2 (by simp [or_comm])⟩

end Lagopus.Datastore
