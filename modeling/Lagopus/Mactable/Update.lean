import Lagopus.Lib.Trace
import Lagopus.Mactable.Table

/-!
# What an update leaves behind

After `mactable_update` the table now read ought to be within its bound, counted,
rid of what is old, and its dynamic entries ought to be those of the ageing list.
None of the five holds of every update, and this file says when they do.

* `Sound` is the five properties; `UpdateRequires` is what the table and the queues
  must be like before: all of it fits, which the running capacity of the queues does
  not see to; there is a dynamic entry, since the count is dropped only along with a
  first entry of the ageing list; no static entry is written over a dynamic one, which
  would put it into the ageing list; and the old entries come first, although a hash
  map hands them out in no order of time.
* `Linked` holds of the work at every moment, whatever is written: `linked_add`,
  `linked_ageOut`.
* `written_list`: the ageing list is the read table's dynamic entries, less those that
  the queues name again, and then entries of the queues.
* `mactable_sound_run`: the five properties after every update of a run.
* `listed_run`: what holds of the ageing list after every run.
-/

namespace Lagopus.L2

open KeyedStore List Mactable Trace

/-- What `age_out_write_table` takes for old. -/
def expired (ageingTime : Nat) (now : Int) (e : Macentry) : Bool := now - e.updateTime ≥ ageingTime

structure Sound (m : Mactable) (order : HashOrder) (clock : Nat → Int) : Prop where
  bounded : (mactableUpdate m order clock).reading.entries.length ≤ m.maxentries
  counted : (mactableUpdate m order clock).nentries =
    (mactableUpdate m order clock).reading.entries.length
  aged : ∀ e ∈ (mactableUpdate m order clock).reading.entries, e.addressType = .dynamic →
    ¬ m.ageingNow clock - e.updateTime > m.ageingTime
  statics : ∀ e ∈ (m.written order clock).table.entries, e.addressType = .static →
    e ∈ (mactableUpdate m order clock).reading.entries
  listed : (mactableUpdate m order clock).macentryList.Nodup ∧
    ∀ e, e ∈ (mactableUpdate m order clock).macentryList ↔
      e ∈ (mactableUpdate m order clock).reading.entries ∧ e.addressType = .dynamic

/-- A static entry is not written over a dynamic one. -/
def Writing.Keeps (w : Writing) (e : Macentry) : Prop :=
  e.addressType = .static → ∀ found ∈ w.table.get e.inteth, found.addressType = .static

def NoUpgrade : Writing → List Macentry → Prop
  | _, [] => True
  | w, e :: writes => w.Keeps e ∧ NoUpgrade (addEntryWriteTable w e) writes

/-- What is waiting in the queues, worker after worker. -/
def Mactable.queued (m : Mactable) : List Macentry := (ofFn fun i => (m.locals i).bbq).flatten

/-- The entries of the read table that may age and that no queue names, as the hash map hands them
out. -/
def Mactable.unrefreshed (m : Mactable) (order : HashOrder) : List Macentry :=
  (order.val m.reading.entries).filter fun e =>
    e.addressType = .dynamic ∧ e.inteth ∉ m.queued.map Macentry.inteth

/-- What an update asks of the table that is read, of the queues and of the clock. -/
structure UpdateRequires (m : Mactable) (order : HashOrder) (clock : Nat → Int) : Prop where
  /-- All there is fits in the table. -/
  room : m.reading.entries.length + m.queued.length ≤ m.maxentries
  /-- The table has a dynamic entry, unless it has none at all. -/
  someDynamic : m.reading.entries = [] ∨ ∃ e ∈ m.reading.entries, e.addressType = .dynamic
  /-- Of the entries for the address of a static one in a queue, the first is static. -/
  staticFirst : ∀ e ∈ m.queued, e.addressType = .static →
    ∀ d ∈ (m.reading.entries ++ m.queued).find? (·.inteth = e.inteth), d.addressType = .static
  /-- No entry older than the ageing time is handed out behind one that is not expired. -/
  oldFirst : (m.unrefreshed order).Pairwise fun d e =>
    clock m.queued.length - e.updateTime > m.ageingTime →
      clock m.queued.length - d.updateTime ≥ m.ageingTime
  /-- The update itself takes no longer than the ageing time. -/
  prompt : ∀ j < m.queued.length, clock m.queued.length - clock j ≤ m.ageingTime

/-! ## What holds of every write -/

/-- The list has one entry for each of its addresses, all of them in the table, and
misses no dynamic one; the count is off by what it started from. -/
structure Writing.Linked (w : Writing) (base : Nat) : Prop where
  nodup : (w.list.map Macentry.inteth).Nodup
  keyed : ∀ e ∈ w.list, w.table.get e.inteth ≠ none
  dynamics : ∀ e ∈ w.table.entries, e.addressType = .dynamic → e ∈ w.list
  count : w.nentries = base + w.table.entries.length

variable {w : Writing} {base : Nat} {e : Macentry}

theorem Writing.Linked.eq_of_inteth (h : w.Linked base) {d : Macentry} (he : e ∈ w.list)
    (hd : d ∈ w.list) (heq : e.inteth = d.inteth) : e = d :=
  inj_on_of_nodup_map h.nodup he hd heq

theorem Writing.Linked.inteth_notMem_erase (h : w.Linked base) {found : Macentry}
    (hfound : found ∈ w.list) : found.inteth ∉ (w.list.erase found).map Macentry.inteth := by
  intro hmem
  obtain ⟨d, hd, heq⟩ := mem_map.1 hmem
  have hdf := h.eq_of_inteth (mem_of_mem_erase hd) hfound heq
  subst hdf
  exact (h.nodup.of_map.not_mem_erase) hd

theorem get_put_ne_none (table : MacHash) (e : Macentry) {k : Inteth} (h : table.get k ≠ none) :
    (table.put e).get k ≠ none := by
  rw [get_put]
  by_cases hk : k = e.inteth
  · simp [hk]
  · rwa [Function.update_of_ne hk]

theorem get_put_self_ne_none (table : MacHash) (e : Macentry) : (table.put e).get e.inteth ≠ none := by
  simp [get_put]

theorem linked_add (h : w.Linked base) (e : Macentry) : (addEntryWriteTable w e).Linked base := by
  unfold addEntryWriteTable
  cases hget : w.table.get e.inteth with
  | none =>
    have hnew : e.inteth ∉ w.list.map Macentry.inteth := by
      intro hmem
      obtain ⟨d, hd, heq⟩ := mem_map.1 hmem
      exact h.keyed d hd (heq ▸ hget)
    have hcount : w.nentries + 1 = base + (w.table.put e).entries.length := by
      rw [length_put_of_get_eq_none hget, h.count]
      omega
    by_cases hdyn : e.addressType = .dynamic
    · simp only [if_pos hdyn]
      refine ⟨?_, ?_, ?_, hcount⟩
      · simpa using h.nodup.append (nodup_singleton e.inteth) (by simpa using hnew)
      · exact forall_mem_append.2 ⟨fun d hd => get_put_ne_none _ _ (h.keyed d hd),
          forall_mem_singleton.2 (get_put_self_ne_none _ _)⟩
      · intro d hd hd'
        rcases mem_put.1 hd with rfl | ⟨hold, -⟩
        · simp
        · exact mem_append_left _ (h.dynamics d hold hd')
    · simp only [if_neg hdyn]
      refine ⟨h.nodup, fun d hd => get_put_ne_none _ _ (h.keyed d hd), ?_, hcount⟩
      intro d hd hd'
      rcases mem_put.1 hd with rfl | ⟨hold, -⟩
      · exact absurd hd' hdyn
      · exact h.dynamics d hold hd'
  | some found =>
    obtain ⟨hin, hkey⟩ := w.table.get_eq_some_iff.1 hget
    by_cases hdyn : found.addressType = .dynamic
    · simp only [if_pos hdyn]
      have hfound := h.dynamics found hin hdyn
      have hgone := h.inteth_notMem_erase hfound
      rw [hkey] at hgone
      refine ⟨?_, ?_, ?_, ?_⟩
      · simpa using (h.nodup.sublist (erase_sublist.map _)).append
          (nodup_singleton e.inteth) (by simpa using hgone)
      · exact forall_mem_append.2 ⟨fun d hd => get_put_ne_none _ _ (h.keyed d (mem_of_mem_erase hd)),
          forall_mem_singleton.2 (get_put_self_ne_none _ _)⟩
      · intro d hd hd'
        rcases mem_put.1 hd with rfl | ⟨hold, hne⟩
        · simp
        · have hdf : d ≠ found := fun heq => hne (heq ▸ hkey)
          exact mem_append_left _ ((mem_erase_of_ne hdf).2 (h.dynamics d hold hd'))
      · simpa [length_put_of_get_eq_some hget] using h.count
    · simp only [if_neg hdyn]
      refine ⟨h.nodup, fun d hd => get_put_ne_none _ _ (h.keyed d hd), ?_, ?_⟩
      · intro d hd hd'
        rcases mem_put.1 hd with rfl | ⟨hold, -⟩
        · exact absurd hd' (by simp)
        · exact h.dynamics d hold hd'
      · have hsame : w.table.get ({ e with addressType := .static } : Macentry).inteth = some found := hget
        simpa [length_put_of_get_eq_some hsame] using h.count

theorem linked_foldl (h : w.Linked base) (writes : List Macentry) :
    (writes.foldl addEntryWriteTable w).Linked base := by
  induction writes generalizing w with
  | nil => exact h
  | cons e writes ih => exact ih (linked_add h e)

/-! ## A list of dynamic entries only -/

/-- The list holds entries of the table, and dynamic ones only. -/
def Writing.Listed (w : Writing) : Prop :=
  ∀ e ∈ w.list, e ∈ w.table.entries ∧ e.addressType = .dynamic

theorem listed_add (hlink : w.Linked base) (h : w.Listed) (hkeeps : w.Keeps e) :
    (addEntryWriteTable w e).Listed := by
  unfold addEntryWriteTable
  -- an entry of the list stays in the table when the one written has another address
  have hstays : ∀ d ∈ w.list, d.inteth ≠ e.inteth → ∀ e' : Macentry, e'.inteth = e.inteth →
      d ∈ (w.table.put e').entries ∧ d.addressType = .dynamic := by
    intro d hd hne e' he'
    exact ⟨mem_put.2 (.inr ⟨(h d hd).1, he' ▸ hne⟩), (h d hd).2⟩
  have hself : ∀ e' : Macentry, e' ∈ (w.table.put e').entries := fun e' => mem_put.2 (.inl rfl)
  cases hget : w.table.get e.inteth with
  | none =>
    have hne : ∀ d ∈ w.list, d.inteth ≠ e.inteth := fun d hd heq => hlink.keyed d hd (heq ▸ hget)
    by_cases hdyn : e.addressType = .dynamic
    · simp only [if_pos hdyn]
      exact forall_mem_append.2 ⟨fun d hd => hstays d hd (hne d hd) e rfl,
        forall_mem_singleton.2 ⟨hself e, hdyn⟩⟩
    · simp only [if_neg hdyn]
      exact fun d hd => hstays d hd (hne d hd) e rfl
  | some found =>
    obtain ⟨hin, hkey⟩ := w.table.get_eq_some_iff.1 hget
    by_cases hdyn : found.addressType = .dynamic
    · simp only [if_pos hdyn]
      have hedyn : e.addressType = .dynamic := by
        cases htype : e.addressType with
        | dynamic => rfl
        | static => exact absurd hdyn (by simp [hkeeps htype found hget])
      have hgone := hlink.inteth_notMem_erase (hlink.dynamics found hin hdyn)
      refine forall_mem_append.2 ⟨fun d hd => ?_, forall_mem_singleton.2 ⟨hself e, hedyn⟩⟩
      refine hstays d (mem_of_mem_erase hd) (fun heq => hgone ?_) e rfl
      exact mem_map.2 ⟨d, hd, heq.trans hkey.symm⟩
    · simp only [if_neg hdyn]
      intro d hd
      refine hstays d hd (fun heq => hdyn ?_) { e with addressType := .static } rfl
      rw [w.table.eq_of_key_eq hin (h d hd).1 (hkey.trans heq.symm)]
      exact (h d hd).2

theorem listed_foldl (hlink : w.Linked base) (h : w.Listed) {writes : List Macentry}
    (hno : NoUpgrade w writes) : (writes.foldl addEntryWriteTable w).Listed := by
  induction writes generalizing w with
  | nil => exact h
  | cons e writes ih => exact ih (linked_add hlink e) (listed_add hlink h hno.1) hno.2

theorem noUpgrade_append {writes more : List Macentry} :
    NoUpgrade w (writes ++ more) ↔
      NoUpgrade w writes ∧ NoUpgrade (writes.foldl addEntryWriteTable w) more := by
  induction writes generalizing w with
  | nil => simp [NoUpgrade]
  | cons e writes ih => simp only [cons_append, NoUpgrade, foldl_cons, ih, and_assoc]

/-- What is stored for the address is static when what was first there is. -/
theorem get_add (w : Writing) (e : Macentry) : ∃ stored,
    (addEntryWriteTable w e).table.get = Function.update w.table.get e.inteth (some stored) ∧
      ∀ first ∈ (w.table.get e.inteth).or (some e), first.addressType = .static →
        stored.addressType = .static := by
  unfold addEntryWriteTable
  cases hget : w.table.get e.inteth with
  | none => exact ⟨e, get_put e, by simp⟩
  | some found =>
    by_cases hdyn : found.addressType = .dynamic
    · refine ⟨e, by simpa [hdyn] using get_put e, ?_⟩
      rintro first ⟨rfl⟩ hstatic
      exact absurd hstatic (by simp [hdyn])
    · refine ⟨{ e with addressType := .static }, ?_, fun _ _ _ => rfl⟩
      simpa [hdyn] using get_put ({ e with addressType := .static } : Macentry)

/-- Where the static entry of an address comes first, no static one is written over a dynamic one. -/
theorem noUpgrade_of_first {w : Writing} {writes : List Macentry}
    (h : ∀ e ∈ writes, e.addressType = .static →
      ∀ d ∈ (w.table.get e.inteth).or (writes.find? (·.inteth = e.inteth)), d.addressType = .static) :
    NoUpgrade w writes := by
  induction writes generalizing w with
  | nil => trivial
  | cons e writes ih =>
    refine ⟨fun hstatic found hfound => ?_, ih fun c hc hstatic d hd => ?_⟩
    · refine h e mem_cons_self hstatic found ?_
      rw [Option.mem_def] at hfound ⊢
      rw [hfound, Option.some_or]
    · have hfirst := h c (mem_cons_of_mem _ hc) hstatic
      obtain ⟨stored, hget, hstored⟩ := get_add w e
      rw [hget] at hd
      by_cases heq : c.inteth = e.inteth
      · rw [heq, Function.update_self, Option.some_or, Option.mem_def, Option.some.injEq] at hd
        subst hd
        rw [heq, find?_cons_of_pos (by simp)] at hfirst
        cases hold : (w.table.get e.inteth).or (some e) with
        | none => simp at hold
        | some first => exact hstored first hold (hfirst first hold)
      · rw [Function.update_of_ne heq] at hd
        refine hfirst d ?_
        rwa [find?_cons_of_neg (by simpa using Ne.symm heq)]

/-! ## The order of the list -/

/-- The entry written leaves its place in the list, and may be put at its end. -/
theorem list_add (hlink : w.Linked base) (h : w.Listed) (e : Macentry) :
    ∃ last, (addEntryWriteTable w e).list = w.list.filter (·.inteth ≠ e.inteth) ++ last ∧
      ∀ d ∈ last, d = e := by
  unfold addEntryWriteTable
  cases hget : w.table.get e.inteth with
  | none =>
    have hall : w.list.filter (·.inteth ≠ e.inteth) = w.list :=
      filter_eq_self.2 fun d hd => by
        have hne : d.inteth ≠ e.inteth := fun heq => hlink.keyed d hd (heq ▸ hget)
        simpa using hne
    rw [hall]
    by_cases hdyn : e.addressType = .dynamic
    · exact ⟨[e], by simp [hdyn], by simp⟩
    · exact ⟨[], by simp [hdyn], by simp⟩
  | some found =>
    obtain ⟨hin, hkey⟩ := w.table.get_eq_some_iff.1 hget
    by_cases hdyn : found.addressType = .dynamic
    · have hfound := hlink.dynamics found hin hdyn
      have herase : w.list.erase found = w.list.filter (·.inteth ≠ e.inteth) := by
        rw [hlink.nodup.of_map.erase_eq_filter]
        refine filter_congr fun d hd => ?_
        by_cases heq : d = found
        · simp [heq, hkey]
        · have hne : d.inteth ≠ e.inteth := fun hd' =>
            heq (hlink.eq_of_inteth hd hfound (hd'.trans hkey.symm))
          simp [heq, hne]
      exact ⟨[e], by simp [hdyn, herase], by simp⟩
    · refine ⟨[], ?_, by simp⟩
      simp only [if_neg hdyn, append_nil]
      refine (filter_eq_self.2 fun d hd => ?_).symm
      obtain ⟨hd', hddyn⟩ := h d hd
      have hne : d.inteth ≠ e.inteth := by
        intro heq
        rw [w.table.eq_of_key_eq hin hd' (hkey.trans heq.symm)] at hdyn
        exact hdyn hddyn
      simpa using hne

/-- Entries for new addresses are put at the end of the list, if they may age. -/
theorem list_foldl_new {writes : List Macentry} (hnodup : (writes.map Macentry.inteth).Nodup)
    (hnew : ∀ e ∈ writes, w.table.get e.inteth = none) :
    (writes.foldl addEntryWriteTable w).list =
      w.list ++ writes.filter fun e => e.addressType = .dynamic := by
  induction writes generalizing w with
  | nil => simp
  | cons e writes ih =>
    obtain ⟨hnotin, hnodup⟩ := nodup_cons.1 hnodup
    have hget := hnew e mem_cons_self
    have hrest : ∀ d ∈ writes, (addEntryWriteTable w e).table.get d.inteth = none := by
      intro d hd
      have hne : d.inteth ≠ e.inteth := fun heq => hnotin (heq ▸ mem_map_of_mem hd)
      simpa [addEntryWriteTable, hget, get_put, Function.update_of_ne hne] using
        hnew d (mem_cons_of_mem _ hd)
    rw [foldl_cons, ih hnodup hrest]
    by_cases hdyn : e.addressType = .dynamic <;> simp [addEntryWriteTable, hget, hdyn]

/-- What is written over leaves the list, the rest keeps its order, and behind it is what was
written. -/
theorem list_foldl (hlink : w.Linked base) (h : w.Listed) {writes : List Macentry}
    (hno : NoUpgrade w writes) : ∃ last, (writes.foldl addEntryWriteTable w).list =
      (w.list.filter fun d => d.inteth ∉ writes.map Macentry.inteth) ++ last ∧
        ∀ d ∈ last, d ∈ writes := by
  induction writes generalizing w with
  | nil => exact ⟨[], by simp, by simp⟩
  | cons e writes ih =>
    obtain ⟨tail, hadd, htail⟩ := list_add hlink h e
    obtain ⟨last, hlist, hlast⟩ := ih (linked_add hlink e) (listed_add hlink h hno.1) hno.2
    refine ⟨(tail.filter fun d => d.inteth ∉ writes.map Macentry.inteth) ++ last, ?_, fun d hd => ?_⟩
    · rw [foldl_cons, hlist, hadd, filter_append, filter_filter, append_assoc]
      congr 2
      funext d
      simp [Bool.and_comm]
    · rcases mem_append.1 hd with hd | hd
      · rw [htail d (mem_of_mem_filter hd)]
        exact mem_cons_self
      · exact mem_cons_of_mem _ (hlast d hd)

theorem length_foldl_le (w : Writing) (writes : List Macentry) :
    (writes.foldl addEntryWriteTable w).table.entries.length ≤
      w.table.entries.length + writes.length := by
  induction writes generalizing w with
  | nil => simp
  | cons e writes ih =>
    have hstep : (addEntryWriteTable w e).table.entries.length ≤ w.table.entries.length + 1 := by
      unfold addEntryWriteTable
      cases hget : w.table.get e.inteth with
      | none => exact (length_put_of_get_eq_none hget).le
      | some found =>
        by_cases hdyn : found.addressType = .dynamic
        · simpa [hdyn] using (length_put_of_get_eq_some hget).le.trans (Nat.le_succ _)
        · have hsame : w.table.get ({ e with addressType := .static } : Macentry).inteth = some found :=
            hget
          simpa [hdyn] using (length_put_of_get_eq_some hsame).le.trans (Nat.le_succ _)
    have hrest := ih (addEntryWriteTable w e)
    rw [foldl_cons, length_cons]
    omega

/-! ## The ageing -/

theorem linked_ageOut (ageingTime : Nat) (now : Int) (list : List Macentry) {table : MacHash}
    {nentries : Nat} (h : (⟨table, list, nentries⟩ : Writing).Linked base) :
    (ageOutWriteTable ageingTime now table nentries list).Linked base ∧
      (ageOutWriteTable ageingTime now table nentries list).list =
        list.dropWhile (expired ageingTime now) ∧
      (ageOutWriteTable ageingTime now table nentries list).table.entries.length +
        (list.takeWhile (expired ageingTime now)).length = table.entries.length := by
  induction list generalizing table nentries with
  | nil => exact ⟨h, rfl, rfl⟩
  | cons e list ih =>
    unfold ageOutWriteTable
    by_cases hold : now - e.updateTime ≥ ageingTime
    · have hexp : expired ageingTime now e = true := by simp [expired, hold]
      rw [if_pos hold, dropWhile_cons_of_pos hexp, takeWhile_cons_of_pos hexp]
      obtain ⟨d, hd⟩ := Option.ne_none_iff_exists'.1 (h.keyed e mem_cons_self)
      obtain ⟨hin, hkey⟩ := table.get_eq_some_iff.1 hd
      have hlength := length_erase hin
      rw [hkey] at hlength
      obtain ⟨hnotin, hnodup⟩ := nodup_cons.1 h.nodup
      have hlink : (⟨table.erase e.inteth, list, nentries - 1⟩ : Writing).Linked base := by
        refine ⟨hnodup, ?_, ?_, ?_⟩
        · intro c hc
          have hne : c.inteth ≠ e.inteth := fun heq => hnotin (heq ▸ mem_map_of_mem hc)
          simpa [get_erase, Function.update_of_ne hne] using h.keyed c (mem_cons_of_mem _ hc)
        · intro c hc hdyn
          obtain ⟨hctable, hne⟩ := mem_erase.1 hc
          rcases mem_cons.1 (h.dynamics c hctable hdyn) with rfl | hclist
          · exact absurd rfl hne
          · exact hclist
        · have hcount := h.count
          simp only at hcount ⊢
          omega
      obtain ⟨hfinal, hlist, hsum⟩ := ih hlink
      refine ⟨hfinal, hlist, ?_⟩
      rw [length_cons]
      omega
    · have hexp : ¬ expired ageingTime now e = true := by simpa [expired] using hold
      rw [if_neg hold, dropWhile_cons_of_neg hexp, takeWhile_cons_of_neg hexp]
      exact ⟨h, rfl, rfl⟩

theorem mem_ageOut (ageingTime : Nat) (now : Int) (list : List Macentry) (table : MacHash)
    (nentries : Nat) (d : Macentry) :
    d ∈ (ageOutWriteTable ageingTime now table nentries list).table.entries ↔
      d ∈ table.entries ∧
        ∀ e ∈ list.takeWhile (expired ageingTime now), d.inteth ≠ e.inteth := by
  induction list generalizing table nentries with
  | nil => simp [ageOutWriteTable]
  | cons e list ih =>
    unfold ageOutWriteTable
    by_cases hold : now - e.updateTime ≥ ageingTime
    · have hexp : expired ageingTime now e = true := by simp [expired, hold]
      rw [if_pos hold, takeWhile_cons_of_pos hexp, ih, mem_erase, forall_mem_cons]
      exact and_assoc
    · have hexp : ¬ expired ageingTime now e = true := by simpa [expired] using hold
      simp [if_neg hold, takeWhile_cons_of_neg hexp]

/-! ## The update as a whole -/

variable (m : Mactable)

theorem linked_cleared : m.cleared.Linked m.cleared.nentries := by
  refine ⟨?_, ?_, ?_, ?_⟩ <;> simp [cleared, empty]

theorem linked_written (order : HashOrder) (clock : Nat → Int) :
    (m.written order clock).Linked m.cleared.nentries :=
  linked_foldl (linked_cleared m) _

theorem aged_spec (order : HashOrder) (clock : Nat → Int) : (m.aged order clock).Linked m.cleared.nentries ∧
      (m.aged order clock).list =
        (m.written order clock).list.dropWhile (expired m.ageingTime (m.ageingNow clock)) ∧
      (m.aged order clock).table.entries.length + ((m.written order clock).list.takeWhile
        (expired m.ageingTime (m.ageingNow clock))).length =
          (m.written order clock).table.entries.length ∧
      ∀ d, d ∈ (m.aged order clock).table.entries ↔ d ∈ (m.written order clock).table.entries ∧
        ∀ e ∈ (m.written order clock).list.takeWhile
          (expired m.ageingTime (m.ageingNow clock)), d.inteth ≠ e.inteth := by
  obtain ⟨hlink, hlist, hlength⟩ :=
    linked_ageOut m.ageingTime (m.ageingNow clock) _ (linked_written m order clock)
  exact ⟨hlink, hlist, hlength, mem_ageOut m.ageingTime (m.ageingNow clock) _ _ _⟩

variable {m : Mactable}

theorem reading_mactableUpdate (h : m.busy = false) (order : HashOrder) (clock : Nat → Int) :
    (mactableUpdate m order clock).reading = (m.aged order clock).table ∧
      (mactableUpdate m order clock).nentries = (m.aged order clock).nentries ∧
      (mactableUpdate m order clock).macentryList = (m.aged order clock).list := by
  simp [mactableUpdate, h, reading]

variable {order : HashOrder} {clock : Nat → Int}

/-! ## What is written when all of it fits -/

theorem takeQueues_eq_flatten {maxentries n : Nat} {bbqs : List (List Macentry)}
    (h : n + bbqs.flatten.length ≤ maxentries) : takeQueues maxentries n bbqs = bbqs.flatten := by
  induction bbqs generalizing n with
  | nil => rfl
  | cons bbq bbqs ih =>
    rw [flatten_cons, length_append] at h
    have hnum : min bbq.length (maxentries - n) = bbq.length := by omega
    rw [takeQueues, flatten_cons]
    simp only [hnum, take_length]
    rw [ih (by omega)]

theorem readWrites_eq (h : m.reading.entries.length ≤ m.maxentries) (order : HashOrder) :
    m.readWrites order = order.val m.reading.entries :=
  take_of_length_le (by rw [(order.property _).length_eq]; exact h)

theorem queueWrites_eq (h : m.reading.entries.length + m.queued.length ≤ m.maxentries)
    (clock : Nat → Int) :
    m.queueWrites clock = m.queued.mapIdx fun j e => { e with updateTime := clock j } := by
  rw [queueWrites, min_eq_left (by omega), takeQueues_eq_flatten h, queued]

/-- The time stamp does not matter to a search by the address. -/
theorem find?_stamped (queued : List Macentry) (clock : Nat → Int) (inteth : Inteth) :
    ((queued.mapIdx fun j e => { e with updateTime := clock j }).find? (·.inteth = inteth)).map
      Macentry.addressType = (queued.find? (·.inteth = inteth)).map Macentry.addressType := by
  induction queued generalizing clock with
  | nil => rfl
  | cons e queued ih =>
    rw [mapIdx_cons, find?_cons, find?_cons]
    by_cases heq : e.inteth = inteth
    · simp [heq]
    · simpa [heq] using ih fun j => clock (j + 1)

theorem find?_order (order : HashOrder) (table : MacHash) (inteth : Inteth) :
    (order.val table.entries).find? (·.inteth = inteth) = table.get inteth := by
  have hperm := order.property table.entries
  exact congrFun (get_congr (s := ⟨_, (hperm.map _).nodup_iff.2 table.distinct⟩) (t := table)
    fun e => hperm.mem_iff) inteth

theorem noUpgrade_writes (h : UpdateRequires m order clock) :
    NoUpgrade m.cleared (m.writes order clock) := by
  have hread := readWrites_eq (Nat.le_of_add_right_le h.room) order
  have hqueue := queueWrites_eq h.room clock
  refine noUpgrade_of_first fun e he hstatic d hd => ?_
  have hempty : m.cleared.table.get e.inteth = none := rfl
  rw [hempty, Option.none_or, writes, hread, hqueue, find?_append, find?_order, Option.mem_def] at hd
  rw [writes, hread, hqueue, mem_append] at he
  rcases he with he | he
  · -- the entries of the read table have an address each
    have hget : m.reading.get e.inteth = some e :=
      m.reading.get_eq_some_iff.2 ⟨(order.property _).mem_iff.1 he, rfl⟩
    rw [hget, Option.some_or] at hd
    rwa [← Option.some.inj hd]
  · obtain ⟨j, hj, rfl⟩ := mem_mapIdx.1 he
    have hfirst := h.staticFirst _ (getElem_mem hj) hstatic
    rw [find?_append] at hfirst
    change ∀ d ∈ (m.reading.get _).or _, _ at hfirst
    cases hget : m.reading.get m.queued[j].inteth with
    | some first =>
      simp only [hget, Option.some_or, Option.some.injEq] at hd
      subst hd
      exact hfirst first (by rw [hget]; rfl)
    | none =>
      have hsame := find?_stamped m.queued clock m.queued[j].inteth
      simp only [hget, Option.none_or] at hd hfirst
      rw [hd] at hsame
      cases hfind : m.queued.find? (·.inteth = m.queued[j].inteth) with
      | none => simp [hfind] at hsame
      | some first =>
        simp only [hfind, Option.map_some, Option.some.injEq] at hsame
        exact hsame.trans (hfirst first hfind)

/-- **The ageing list as written**: what the read table had, in the order of the hash map, without
what the queues name, and behind it entries of the queues. -/
theorem written_list (h : UpdateRequires m order clock) : ∃ last,
    (m.written order clock).list = m.unrefreshed order ++ last ∧ ∀ e ∈ last, e ∈ m.queueWrites clock := by
  have hread := readWrites_eq (Nat.le_of_add_right_le h.room) order
  have hperm := order.property m.reading.entries
  set w := (m.readWrites order).foldl addEntryWriteTable m.cleared with hw
  have hwlist : w.list = (order.val m.reading.entries).filter fun e => e.addressType = .dynamic := by
    rw [hw, hread, list_foldl_new ((hperm.map _).nodup_iff.2 m.reading.distinct) fun _ _ => rfl]
    rfl
  have hlink : w.Linked m.cleared.nentries := linked_foldl (linked_cleared m) _
  obtain ⟨hnoread, hnoqueue⟩ := noUpgrade_append.1 (noUpgrade_writes h)
  have hlisted : w.Listed := listed_foldl (linked_cleared m) (fun _ he => absurd he not_mem_nil) hnoread
  obtain ⟨last, hlist, hlast⟩ := list_foldl hlink hlisted hnoqueue
  have haddresses : (m.queueWrites clock).map Macentry.inteth = m.queued.map Macentry.inteth := by
    rw [queueWrites_eq h.room]
    exact ext_getElem (by simp) (by simp)
  refine ⟨last, ?_, hlast⟩
  rw [written, writes, foldl_append, hlist, hwlist, haddresses, filter_filter, unrefreshed]
  congr 2
  funext e
  simp [Bool.and_comm]

/-- Behind the first entry that is not taken there is none of those that ought to be. -/
theorem not_of_mem_dropWhile {α : Type} {taken : α → Bool} (due : α → Prop) {l : List α} {e : α}
    (hdue : ∀ e, due e → taken e = true) (h : l.Pairwise fun d e => due e → taken d = true)
    (he : e ∈ l.dropWhile taken) : ¬ due e := by
  induction l with
  | nil => exact absurd he not_mem_nil
  | cons d l ih =>
    obtain ⟨hd, hl⟩ := pairwise_cons.1 h
    by_cases htaken : taken d = true
    · rw [dropWhile_cons_of_pos htaken] at he
      exact ih hl he
    · rw [dropWhile_cons_of_neg htaken] at he
      rcases mem_cons.1 he with rfl | he
      · exact fun h => htaken (hdue _ h)
      · exact fun h => htaken (hd e he h)

theorem young_of_mem_dropWhile (h : UpdateRequires m order clock) :
    ∀ e ∈ (m.written order clock).list.dropWhile (expired m.ageingTime (m.ageingNow clock)),
      ¬ m.ageingNow clock - e.updateTime > m.ageingTime := by
  have hnow : m.ageingNow clock = clock m.queued.length := by
    rw [ageingNow, queueWrites_eq h.room, length_mapIdx]
  intro e he
  obtain ⟨last, hlist, hlast⟩ := written_list h
  rw [hlist, dropWhile_append] at he
  have hmem : e ∈ (m.unrefreshed order).dropWhile (expired m.ageingTime (m.ageingNow clock)) ∨
      e ∈ last := by
    split_ifs at he
    · exact .inr (dropWhile_subset _ he)
    · exact mem_append.1 he
  rcases hmem with hmem | hmem
  · refine not_of_mem_dropWhile (fun e => m.ageingNow clock - e.updateTime > m.ageingTime) ?_ ?_ hmem
    · intro e he
      simpa [expired] using he.le
    · simpa [expired, hnow] using h.oldFirst
  · have hqueue := hlast e hmem
    rw [queueWrites_eq h.room] at hqueue
    obtain ⟨j, hj, rfl⟩ := mem_mapIdx.1 hqueue
    rw [hnow]
    exact not_lt.2 (h.prompt j hj)

/-- The count is that of the table read, and the ageing list has its dynamic entries. -/
structure Mactable.Accounted (m : Mactable) : Prop where
  count : m.nentries = m.reading.entries.length
  listed : ∀ e, e ∈ m.macentryList ↔ e ∈ m.reading.entries ∧ e.addressType = .dynamic

theorem Mactable.Accounted.cleared_nentries (hm : m.Accounted) (h : UpdateRequires m order clock) :
    m.cleared.nentries = 0 := by
  rcases h.someDynamic with hnil | ⟨e, he, hdyn⟩
  · have hzero : m.nentries = 0 := by simp [hm.count, hnil]
    simp [cleared, hzero]
  · have hne : m.macentryList ≠ [] := ne_nil_of_mem ((hm.listed e).2 ⟨he, hdyn⟩)
    simp [cleared, hne]

/-- **One update**, of a table that is accounted for. -/
theorem sound_mactableUpdate (hbusy : m.busy = false) (hm : m.Accounted)
    (h : UpdateRequires m order clock) : Sound m order clock := by
  obtain ⟨hreading, hnentries, hlist⟩ := reading_mactableUpdate hbusy order clock
  obtain ⟨hlink, hdrop, hlength, hmem⟩ := aged_spec m order clock
  have hlisted : (m.written order clock).Listed :=
    listed_foldl (linked_cleared m) (by simp [Writing.Listed, cleared]) (noUpgrade_writes h)
  constructor
  · have hwritten := length_foldl_le m.cleared (m.writes order clock)
    have hempty : m.cleared.table.entries.length = 0 := rfl
    have hwrites : (m.writes order clock).length = m.reading.entries.length + m.queued.length := by
      rw [writes, length_append, readWrites_eq (Nat.le_of_add_right_le h.room), queueWrites_eq h.room,
        length_mapIdx, (order.property _).length_eq]
    change (m.written order clock).table.entries.length ≤ _ at hwritten
    have hroom := h.room
    rw [hreading]
    omega
  · rw [hreading, hnentries, hlink.count, hm.cleared_nentries h, Nat.zero_add]
  · rw [hreading]
    intro e he hdyn
    have hmemlist := hlink.dynamics e he hdyn
    rw [hdrop] at hmemlist
    exact young_of_mem_dropWhile h e hmemlist
  · rw [hreading]
    intro s hs hstatic
    refine (hmem s).2 ⟨hs, fun e he heq => ?_⟩
    obtain ⟨hetable, hedyn⟩ := hlisted e (takeWhile_subset _ he)
    have hse := (m.written order clock).table.eq_of_key_eq hs hetable heq
    rw [← hse, hstatic] at hedyn
    exact absurd hedyn (by simp)
  · rw [hreading, hlist]
    refine ⟨hlink.nodup.of_map, fun e => ⟨fun he => ?_, fun he => hlink.dynamics e he.1 he.2⟩⟩
    rw [hdrop] at he
    obtain ⟨hetable, hedyn⟩ := hlisted e (dropWhile_subset _ he)
    refine ⟨(hmem e).2 ⟨hetable, fun c hc heq => ?_⟩, hedyn⟩
    -- the addresses of the part kept and of the part aged out are distinct
    have hnodup := (linked_written m order clock).nodup
    rw [← takeWhile_append_dropWhile (p := expired m.ageingTime (m.ageingNow clock))
      (l := (m.written order clock).list), map_append] at hnodup
    exact disjoint_of_nodup_append hnodup (mem_map_of_mem hc) (heq ▸ mem_map_of_mem he)

/-! ## Over whole runs -/

/-- An update that switches tables finds what it requires. -/
def Event.Required (m : Mactable) : Event → Prop
  | .update order clock => m.busy = false → UpdateRequires m order clock
  | _ => True

/-- An update that switches tables leaves the table as it ought to be. -/
def Event.Sound (m : Mactable) : Event → Prop
  | .update order clock => m.busy = false → L2.Sound m order clock
  | _ => True

theorem Mactable.Accounted.step (hm : m.Accounted) (e : Event) (h : e.Required m) :
    e.Sound m ∧ (m.step e).Accounted := by
  cases e with
  | learn | lookup | entryUpdate | maxEntriesSet | ageingTimeSet =>
    exact ⟨trivial, hm.count, hm.listed⟩
  | update order clock =>
    cases hbusy : m.busy with
    | true =>
      refine ⟨fun hfree => absurd hbusy (by simp [hfree]), ?_⟩
      change (mactableUpdate m order clock).Accounted
      unfold mactableUpdate
      rwa [if_pos hbusy]
    | false =>
      have hsound := sound_mactableUpdate hbusy hm (h hbusy)
      exact ⟨fun _ => hsound, hsound.counted, hsound.listed.2⟩

/-- **The table after every update.** In a run in which every update that switches tables finds what it
requires, each of them leaves a table within its bound, counted, aged, with its static entries, and with
its dynamic entries in the ageing list. -/
theorem mactable_sound_run (events : List Event)
    (h : EveryStep Mactable.step (fun m e => e.Required m) Mactable.init events) :
    EveryStep Mactable.step (fun m e => e.Sound m) Mactable.init events := by
  have hinit : Mactable.init.Accounted := ⟨rfl, by simp [Mactable.init, reading, KeyedStore.empty]⟩
  exact EveryStep.of_invariant (fun m e hm hreq => hm.step e hreq) hinit h

/-- The ageing list has one entry for each of its addresses, all of them in the table read, and misses no
dynamic one. -/
structure Mactable.Listed (m : Mactable) : Prop where
  nodup : (m.macentryList.map Macentry.inteth).Nodup
  keyed : ∀ e ∈ m.macentryList, m.reading.get e.inteth ≠ none
  dynamics : ∀ e ∈ m.reading.entries, e.addressType = .dynamic → e ∈ m.macentryList

theorem listed_mactableUpdate (h : m.Listed) (order : HashOrder) (clock : Nat → Int) :
    (mactableUpdate m order clock).Listed := by
  cases hbusy : m.busy with
  | true =>
    unfold mactableUpdate
    rwa [if_pos hbusy]
  | false =>
    obtain ⟨hread, -, hlist⟩ := reading_mactableUpdate hbusy order clock
    have hlinked := (aged_spec m order clock).1
    constructor
    · rw [hlist]
      exact hlinked.nodup
    · rw [hlist, hread]
      exact hlinked.keyed
    · rw [hlist, hread]
      exact hlinked.dynamics

/-- **Every dynamic entry is in the ageing list**, whatever the workers and the updater do. Whether the
ageing gets to it is another matter: it stops at the first entry that is not old. -/
theorem listed_run (events : List Event) : (Mactable.init.run events).Listed := by
  refine foldlRecOn events Mactable.step ⟨nodup_nil, by rintro _ ⟨⟩, by rintro _ ⟨⟩⟩ fun m hm e _ => ?_
  cases e with
  | update order clock => exact listed_mactableUpdate hm order clock
  | learn | lookup | entryUpdate | maxEntriesSet | ageingTimeSet => exact ⟨hm.nodup, hm.keyed, hm.dynamics⟩

/-- Two stations are learned by two workers; one of them is heard again, and an address is set by
hand; the station that is not heard of ages. -/
def twoStations : List Event :=
  [.learn 1 7 0x0200000000aa, .learn 3 8 0x0200000000bb, .update .asKept fun _ => 30,
    .learn 1 7 0x0200000000aa, .entryUpdate 0 0x0200000000cc 9, .update .asKept fun _ => 340]

theorem mactable_sound_run_twoStations :
    EveryStep Mactable.step (fun m e => e.Sound m) Mactable.init twoStations ∧
      (Mactable.init.run twoStations).nentries = 2 := by
  refine ⟨mactable_sound_run twoStations ⟨trivial, trivial, fun _ => ?_, trivial, trivial, fun _ => ?_,
    trivial⟩, by decide⟩
  · constructor <;> decide
  · constructor <;> decide

/-- With room for one entry, two workers' stations are both written; and a static entry
alone in the table is counted once more with every update. -/
theorem update_overfull_and_miscounted :
    ((Mactable.init.run [.maxEntriesSet 1, .learn 1 7 0x0200000000aa, .learn 3 8 0x0200000000bb,
        .update .asKept fun _ => 30]).reading.entries.length = 2) ∧
      (Mactable.init.run [.entryUpdate 0 0x0200000000aa 7, .update .asKept fun _ => 30,
        .update .asKept fun _ => 60]).nentries = 2 ∧
      (Mactable.init.run [.entryUpdate 0 0x0200000000aa 7, .update .asKept fun _ => 30,
        .update .asKept fun _ => 60]).reading.entries.length = 1 := by
  decide

end Lagopus.L2
