import JobControl.Proofs.Job.Changes
import JobControl.Reap
import Mathlib.Data.List.Pairwise

/-!
# The job table as a map from numbers to jobs

What each operation on the table does to its entries.  The numbers of the entries are distinct
(`eq_of_id_eq`), so looking up a number finds the one entry that has it; a registered job has a
number of its own, and taking it out again leaves the entries as they were
(`entries_erase_register`).

`JobTable.settle` is what one report does to the table during a drain: the job it is about is
updated, and leaves once it is over.  A drain settles its reports one after the other
(`table_reap`).  Jobs without a process in common stay apart in all of this (`JobTable.Apart`), and
no operation on the table brings in a process, except by changing a job (`mem_pids_modify`).
-/

set_option autoImplicit false

namespace JobControl.JobTable

variable {t t' : JobTable} {e e' : TableEntry} {id : Nat} {job : Job} {f : Job → Job}

/-! ## Looking up -/

theorem ext_entries (entries : t.entries = t'.entries) (capacity : t.capacity = t'.capacity)
    (registered : t.registered = t'.registered) : t = t' := by
  cases t
  cases t'
  simp_all

theorem eq_of_id_eq (he : e ∈ t.entries) (he' : e' ∈ t.entries) (h : e.id = e'.id) : e = e' := by
  by_contra hne
  have apart : t.entries.Pairwise fun a b => a.id ≠ b.id := t.ordered.imp Nat.ne_of_lt
  have : Std.Symm fun a b : TableEntry => a.id ≠ b.id := ⟨fun _ _ h => h.symm⟩
  exact apart.forall he he' hne h

theorem find?_eq_some_iff : t.find? id = some job ↔ ∃ e ∈ t.entries, e.id = id ∧ e.job = job := by
  simp only [find?, Option.map_eq_some_iff]
  constructor
  · rintro ⟨e, he, rfl⟩
    exact ⟨e, List.mem_of_find?_eq_some he, by simpa using List.find?_some he, rfl⟩
  · rintro ⟨e, he, rfl, rfl⟩
    obtain ⟨e', he'⟩ : ∃ e', t.entries.find? (fun a => a.id == e.id) = some e' :=
      Option.isSome_iff_exists.mp (List.find?_isSome.mpr ⟨e, he, beq_self_eq_true e.id⟩)
    refine ⟨e', he', ?_⟩
    have hid : e'.id = e.id := by simpa using List.find?_some he'
    rw [eq_of_id_eq (List.mem_of_find?_eq_some he') he hid]

theorem find?_of_mem (he : e ∈ t.entries) : t.find? e.id = some e.job :=
  find?_eq_some_iff.mpr ⟨e, he, rfl, rfl⟩

/-- The job that is found under a number is that of every entry with it. -/
theorem job_of_find? (h : t.find? id = some job) (he : e ∈ t.entries) (hid : e.id = id) :
    e.job = job := by
  have there := find?_of_mem he
  rw [hid, h] at there
  exact (Option.some.inj there).symm

theorem find?_eq_none_iff : t.find? id = none ↔ ∀ e ∈ t.entries, e.id ≠ id := by
  simp [find?]

/-! ## Changing and releasing -/

theorem mem_modify : e ∈ (t.modify id f).entries ↔ ∃ e' ∈ t.entries, e'.modify id f = e := by
  simp only [modify, List.mem_map]

theorem mem_erase : e ∈ (t.erase id).entries ↔ e ∈ t.entries ∧ e.id ≠ id := by
  simp only [erase, List.mem_filter, bne_iff_ne]

/-- An entry after a change is one of another number, or the changed one. -/
theorem cases_of_mem_modify (he : e ∈ (t.modify id f).entries) :
    (e ∈ t.entries ∧ e.id ≠ id) ∨
      ∃ e' ∈ t.entries, e'.id = id ∧ e = { e' with job := f e'.job } := by
  obtain ⟨e', he', rfl⟩ := mem_modify.mp he
  by_cases h : e'.id = id
  · exact Or.inr ⟨e', he', h, by simp only [TableEntry.modify, if_pos h]⟩
  · rw [TableEntry.modify, if_neg h]
    exact Or.inl ⟨he', h⟩

theorem mem_modify_of_ne (he : e ∈ t.entries) (h : e.id ≠ id) : e ∈ (t.modify id f).entries :=
  mem_modify.mpr ⟨e, he, by simp only [TableEntry.modify, if_neg h]⟩

theorem mem_modify_of_eq (he : e ∈ t.entries) (h : e.id = id) :
    { e with job := f e.job } ∈ (t.modify id f).entries :=
  mem_modify.mpr ⟨e, he, by simp only [TableEntry.modify, if_pos h]⟩

theorem find?_modify (h : t.find? id = some job) : (t.modify id f).find? id = some (f job) := by
  obtain ⟨e, he, rfl, rfl⟩ := find?_eq_some_iff.mp h
  exact find?_eq_some_iff.mpr ⟨_, mem_modify_of_eq he rfl, rfl, rfl⟩

/-- Releasing a number that no job has changes nothing. -/
theorem erase_eq_self (h : t.find? id = none) : t.erase id = t := by
  have entries : (t.erase id).entries = t.entries :=
    List.filter_eq_self.mpr fun e he => bne_iff_ne.mpr (find?_eq_none_iff.mp h e he)
  obtain ⟨capacity, es, registered, ordered, numbered⟩ := t
  simp only [erase, mk.injEq, and_true, true_and]
  exact entries

/-- What was done to a job does not matter once it is taken out. -/
theorem entries_erase_modify : ((t.modify id f).erase id).entries = (t.erase id).entries := by
  simp only [erase, modify]
  induction t.entries with
  | nil => rfl
  | cons e rest ih =>
    by_cases h : e.id = id
    · simp [TableEntry.modify, h, ih]
    · simp [TableEntry.modify, h, ih]

/-! ## Registering -/

/-- A registration adds one entry under a number that no other entry has. -/
theorem register_eq_ok (h : t.register job = .ok (id, t')) :
    id = lowestFree 1 t.entries ∧ t'.capacity = t.capacity ∧
      t'.entries = insertEntry ⟨id, t.registered, { job with id := some id }⟩ t.entries ∧
      ∀ e ∈ t.entries, e.id ≠ id := by
  simp only [register] at h
  split at h
  · cases h
  · cases h
    exact ⟨rfl, rfl, rfl, lowestFree_ne t.ordered fun e he => (t.numbered e he).1⟩

theorem mem_of_register (h : t.register job = .ok (id, t')) :
    e ∈ t'.entries ↔ e = ⟨id, t.registered, { job with id := some id }⟩ ∨ e ∈ t.entries := by
  rw [(register_eq_ok h).2.2.1, mem_insertEntry]

theorem find?_of_register (h : t.register job = .ok (id, t')) :
    t'.find? id = some { job with id := some id } :=
  find?_eq_some_iff.mpr ⟨_, (mem_of_register h).mpr (Or.inl rfl), rfl, rfl⟩

/-- A job that the table cannot hold is handed back as it was. -/
theorem register_eq_error {full : TableFull} (h : t.register job = .error full) :
    full = ⟨t.capacity, job⟩ := by
  simp only [register] at h
  split at h
  · cases h
    rfl
  · cases h

/-- Taking a new entry out again leaves the others. -/
theorem filter_insertEntry (new : TableEntry) {es : List TableEntry}
    (fresh : ∀ e ∈ es, e.id ≠ new.id) :
    (insertEntry new es).filter (fun e => e.id != new.id) = es := by
  have kept : es.filter (fun e => e.id != new.id) = es :=
    List.filter_eq_self.mpr fun e he => bne_iff_ne.mpr (fresh e he)
  induction es with
  | nil => simp [insertEntry]
  | cons e rest ih =>
    have hrest : ∀ e ∈ rest, e.id ≠ new.id := fun a ha => fresh a (List.mem_cons_of_mem e ha)
    have hkept : rest.filter (fun e => e.id != new.id) = rest :=
      List.filter_eq_self.mpr fun a ha => bne_iff_ne.mpr (hrest a ha)
    have he : (e.id != new.id) = true := bne_iff_ne.mpr (fresh e List.mem_cons_self)
    simp only [insertEntry]
    split
    · simpa using kept
    · rw [List.filter_cons, if_pos he, ih hrest hkept]

/-- A job that is registered, changed and taken out again leaves the entries as they were. -/
theorem entries_erase_register (h : t.register job = .ok (id, t')) :
    ((t'.modify id f).erase id).entries = t.entries := by
  obtain ⟨-, -, entries, fresh⟩ := register_eq_ok h
  rw [entries_erase_modify]
  simp only [erase, entries]
  exact filter_insertEntry ⟨id, t.registered, { job with id := some id }⟩ fresh

/-! ## The most recent job -/

theorem newest_eq_none_iff {es : List TableEntry} : newest es = none ↔ es = [] := by
  cases es with
  | nil => simp [newest]
  | cons e rest =>
    simp only [newest, reduceCtorEq, iff_false]
    split
    · simp
    · split <;> simp

theorem mem_of_newest {es : List TableEntry} (h : newest es = some e) : e ∈ es := by
  induction es generalizing e with
  | nil => cases h
  | cons a rest ih =>
    simp only [newest] at h
    split at h
    case h_1 =>
      cases h
      exact List.mem_cons_self
    case h_2 f hf =>
      split at h
      · cases h
        exact List.mem_cons_self
      · cases h
        exact List.mem_cons_of_mem a (ih hf)

theorem mostRecent?_eq_none_iff {p : Job → Bool} :
    t.mostRecent? p = none ↔ ∀ e ∈ t.entries, p e.job = false := by
  simp [mostRecent?, newest_eq_none_iff, List.filter_eq_nil_iff]

/-- The most recent job of a class is a tracked job of that class. -/
theorem mostRecent?_eq_some {p : Job → Bool} (h : t.mostRecent? p = some id) :
    ∃ e ∈ t.entries, e.id = id ∧ p e.job = true := by
  simp only [mostRecent?, Option.map_eq_some_iff] at h
  obtain ⟨e, he, rfl⟩ := h
  obtain ⟨hmem, hp⟩ := List.mem_filter.mp (mem_of_newest he)
  exact ⟨e, hmem, rfl, hp⟩

/-! ## Settling a report -/

/-- Updates the job a report is about, and takes it out if it is over then. -/
def settle (t : JobTable) (change : StatusChange) : JobTable :=
  match t.record change with
  | none => t
  | some (id, t) =>
    match t.retire id with
    | some (_, smaller) => smaller
    | none => t

theorem table_record (r : Reaping) (change : StatusChange) :
    (r.record change).table = r.table.settle change := by
  rcases h : r.table.record change with _ | ⟨id, table⟩
  · simp only [Reaping.record, settle, h]
  · rcases h' : table.retire id with _ | ⟨report, smaller⟩
    · simp only [Reaping.record, settle, h, h']
      split <;> rfl
    · simp only [Reaping.record, settle, h, h']

/-- A drain settles the changes that its reports imply, in order. -/
theorem table_reap (t : JobTable) (reports : List Notification) :
    (t.reap reports).table = (reports.filterMap Notification.change?).foldl settle t := by
  have fold : ∀ (changes : List StatusChange) (r : Reaping),
      (changes.foldl Reaping.record r).table = changes.foldl settle r.table := by
    intro changes
    induction changes with
    | nil => intro r; rfl
    | cons change rest ih =>
      intro r
      rw [List.foldl_cons, ih, table_record, List.foldl_cons]
  exact fold _ (.start t)

/-- The table whose jobs were asked for a process either has none with it, or names the number of an
entry that has. -/
theorem findByPid?_eq_some {pid : Pid} (h : t.findByPid? pid = some id) :
    ∃ e ∈ t.entries, e.id = id ∧ pid ∈ e.job.pids := by
  simp only [findByPid?, Option.map_eq_some_iff] at h
  obtain ⟨e, he, rfl⟩ := h
  have own : e.job.containsPid pid = true := by simpa using List.find?_some he
  exact ⟨e, List.mem_of_find?_eq_some he, rfl, Job.containsPid_iff.mp own⟩

theorem findByPid?_eq_none_iff {pid : Pid} :
    t.findByPid? pid = none ↔ ∀ e ∈ t.entries, pid ∉ e.job.pids := by
  simp only [findByPid?, Option.map_eq_none_iff, List.find?_eq_none, Job.containsPid_iff]

/-- What one report does to the table: nothing if no job has the process; otherwise the job is
updated, and it stays unless it is over. -/
theorem settle_eq (t : JobTable) (change : StatusChange) :
    (t.findByPid? change.pid = none ∧ t.settle change = t) ∨
      ∃ e ∈ t.entries, t.findByPid? change.pid = some e.id ∧ change.pid ∈ e.job.pids ∧
        t.settle change =
          if (e.job.apply change).isOver then (t.modify e.id fun job => job.apply change).erase e.id
          else t.modify e.id fun job => job.apply change := by
  cases h : t.findByPid? change.pid with
  | none => exact Or.inl ⟨rfl, by simp only [settle, record, h, Option.map_none]⟩
  | some id =>
    obtain ⟨e, he, rfl, hpid⟩ := findByPid?_eq_some h
    refine Or.inr ⟨e, he, rfl, hpid, ?_⟩
    have found :
        (t.modify e.id fun job => job.apply change).find? e.id = some (e.job.apply change) :=
      find?_modify (find?_of_mem he)
    simp only [settle, record, h, Option.map_some, retire, found, ← Job.isOver_eq]
    by_cases concluded : (e.job.apply change).isOver = true
    · simp only [concluded, if_true]
    · simp only [concluded, Bool.false_eq_true, if_false]

/-! ## Jobs without a process in common -/

/-- No process belongs to two jobs. -/
def Apart (t : JobTable) : Prop :=
  ∀ e ∈ t.entries, ∀ e' ∈ t.entries, ∀ p ∈ e.job.pids, p ∈ e'.job.pids → e.id = e'.id

/-- A process is found in the one job that has it. -/
theorem Apart.findByPid?_eq_iff (h : t.Apart) (he : e ∈ t.entries) {pid : Pid} :
    t.findByPid? pid = some e.id ↔ pid ∈ e.job.pids := by
  constructor
  · intro found
    obtain ⟨e', he', hid, hpid⟩ := findByPid?_eq_some found
    rwa [← eq_of_id_eq he' he hid]
  · intro hpid
    cases found : t.findByPid? pid with
    | none => exact absurd hpid (findByPid?_eq_none_iff.mp found e he)
    | some id =>
      obtain ⟨e', he', rfl, hpid'⟩ := findByPid?_eq_some found
      rw [h e' he' e he pid hpid' hpid]

theorem Apart.erase (h : t.Apart) (id : Nat) : (t.erase id).Apart :=
  fun e he e' he' => h e (mem_erase.mp he).1 e' (mem_erase.mp he').1

theorem Apart.modify (h : t.Apart) {f : Job → Job}
    (same : ∀ e ∈ t.entries, e.id = id → (f e.job).pids = e.job.pids) : (t.modify id f).Apart := by
  have back : ∀ e ∈ (t.modify id f).entries,
      ∃ e' ∈ t.entries, e'.id = e.id ∧ e.job.pids = e'.job.pids := by
    intro e he
    rcases cases_of_mem_modify he with ⟨he, -⟩ | ⟨e', he', hid, rfl⟩
    · exact ⟨e, he, rfl, rfl⟩
    · exact ⟨e', he', rfl, same e' he' hid⟩
  intro e he e' he' p hp hp'
  obtain ⟨a, ha, hid, hpids⟩ := back e he
  obtain ⟨b, hb, hid', hpids'⟩ := back e' he'
  rw [hpids] at hp
  rw [hpids'] at hp'
  rw [← hid, ← hid']
  exact h a ha b hb p hp hp'

/-- A new job without processes is apart from the others. -/
theorem Apart.register (h : t.Apart) {job : Job} (unlaunched : job.pids = [])
    (registered : t.register job = .ok (id, t')) : t'.Apart := by
  have none : ∀ e ∈ t'.entries, ∀ p ∈ e.job.pids, e ∈ t.entries := by
    intro e he p hp
    rcases (mem_of_register registered).mp he with rfl | he
    · have empty : Job.pids { job with id := some id } = [] := unlaunched
      rw [empty] at hp
      cases hp
    · exact he
  intro e he e' he' p hp hp'
  exact h e (none e he p hp) e' (none e' he' p hp') p hp hp'

/-- A job that gets processes which no other job has stays apart from the others. -/
theorem Apart.launch (h : t.Apart) {job : Job}
    (fresh : ∀ e ∈ t.entries, e.id ≠ id → ∀ p ∈ job.pids, p ∉ e.job.pids) :
    (t.modify id fun _ => job).Apart := by
  intro e he e' he' p hp hp'
  rcases cases_of_mem_modify he with ⟨he, hne⟩ | ⟨a, ha, hid, rfl⟩
  · rcases cases_of_mem_modify he' with ⟨he', -⟩ | ⟨b, hb, hid', rfl⟩
    · exact h e he e' he' p hp hp'
    · exact absurd hp (fresh e he hne p hp')
  · rcases cases_of_mem_modify he' with ⟨he', hne'⟩ | ⟨b, hb, hid', rfl⟩
    · exact absurd hp' (fresh e' he' hne' p hp)
    · exact hid.trans hid'.symm

theorem Apart.settle (h : t.Apart) (change : StatusChange) : (t.settle change).Apart := by
  rcases settle_eq t change with ⟨-, same⟩ | ⟨e, -, -, -, settled⟩
  · rw [same]
    exact h
  · have changed : (t.modify e.id fun job => job.apply change).Apart :=
      h.modify fun e' _ _ => (Job.Advances.apply e'.job change).pids_eq
    rw [settled]
    split
    · exact changed.erase e.id
    · exact changed

/-! ## The processes of a table -/

section Processes

variable {pid : Pid}

/-- All processes that stages in the table were launched as. -/
def pids (t : JobTable) : List Pid :=
  t.entries.flatMap fun e => e.job.pids

theorem mem_pids : pid ∈ t.pids ↔ ∃ e ∈ t.entries, pid ∈ e.job.pids :=
  List.mem_flatMap

theorem pids_subset_of_entries
    (kept : ∀ e' ∈ t'.entries, ∃ e ∈ t.entries, e'.job.pids = e.job.pids) : t'.pids ⊆ t.pids := by
  intro pid hpid
  obtain ⟨e', he', hpid⟩ := mem_pids.mp hpid
  obtain ⟨e, he, same⟩ := kept e' he'
  exact mem_pids.mpr ⟨e, he, same ▸ hpid⟩

theorem pids_erase (t : JobTable) (id : Nat) : (t.erase id).pids ⊆ t.pids :=
  pids_subset_of_entries fun e he => ⟨e, (mem_erase.mp he).1, rfl⟩

theorem pids_modify {f : Job → Job}
    (same : ∀ e ∈ t.entries, e.id = id → (f e.job).pids = e.job.pids) :
    (t.modify id f).pids ⊆ t.pids := by
  refine pids_subset_of_entries fun e he => ?_
  rcases cases_of_mem_modify he with ⟨he, -⟩ | ⟨e', he', hid, rfl⟩
  · exact ⟨e, he, rfl⟩
  · exact ⟨e', he', same e' he' hid⟩

/-- A change of one job brings in that job's processes at most. -/
theorem mem_pids_modify (hpid : pid ∈ (t.modify id fun _ => job).pids) :
    pid ∈ t.pids ∨ pid ∈ job.pids := by
  obtain ⟨e, he, hpid⟩ := mem_pids.mp hpid
  rcases cases_of_mem_modify he with ⟨he, -⟩ | ⟨e', -, -, rfl⟩
  · exact Or.inl (mem_pids.mpr ⟨e, he, hpid⟩)
  · exact Or.inr hpid

theorem pids_register (unlaunched : job.pids = []) (registered : t.register job = .ok (id, t')) :
    t'.pids ⊆ t.pids := by
  intro pid hpid
  obtain ⟨e, he, hpid⟩ := mem_pids.mp hpid
  rcases (mem_of_register registered).mp he with rfl | he
  · have none : Job.pids { job with id := some id } = [] := unlaunched
    rw [none] at hpid
    cases hpid
  · exact mem_pids.mpr ⟨e, he, hpid⟩

theorem pids_settle (t : JobTable) (change : StatusChange) : (t.settle change).pids ⊆ t.pids := by
  rcases settle_eq t change with ⟨-, same⟩ | ⟨e, -, -, -, settled⟩
  · rw [same]
    exact List.Subset.refl _
  · have changed : (t.modify e.id fun job => job.apply change).pids ⊆ t.pids :=
      pids_modify fun e' _ _ => (Job.Advances.apply e'.job change).pids_eq
    rw [settled]
    split
    · exact List.Subset.trans (pids_erase _ e.id) changed
    · exact changed

theorem pids_reap (t : JobTable) (reports : List Notification) :
    (t.reap reports).table.pids ⊆ t.pids := by
  rw [table_reap]
  induction reports.filterMap Notification.change? generalizing t with
  | nil => exact List.Subset.refl _
  | cons change rest ih => exact List.Subset.trans (ih (t.settle change)) (t.pids_settle change)

end Processes

end JobControl.JobTable
