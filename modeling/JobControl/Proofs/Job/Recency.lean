import JobControl.Proofs.Job.Requests

/-!
# Which job is the most recent

Numbers are given out again, so a job with a high number may be older than one with a low number.
What tells the age of a job is the order of the registrations: the numbers a table gave out, oldest
first, are its history (`JobTable.Gave`), and the order of an entry is the place in that history at
which its number was given out for the last time.

A registration adds to the history; everything else that is done to a table leaves a rest of it
(`JobTable.RestOf`), in which the jobs that are left keep their places.  From this the most recent
job of a class is read off the history: it is tracked under the last number in it under which a job
of that class is tracked at all (`JobTable.Gave.mostRecent?_eq`).  `JobTable.recency` says so of all
that can be asked of a table.
-/

set_option autoImplicit false

namespace JobControl

/-- The number that a reply gives to a new job. -/
def TableReply.newNumber? : TableReply → Option Nat
  | .registered id => some id
  | _ => none

namespace JobTable

variable {t t' t'' : JobTable} {id : Nat} {job : Job} {given : List Nat} {p : Job → Bool}

/-! ## The newest entry -/

theorem order_le_of_newest {es : List TableEntry} {e f : TableEntry} (h : newest es = some e)
    (hf : f ∈ es) : f.order ≤ e.order := by
  induction es generalizing e f with
  | nil => cases hf
  | cons a rest ih =>
    simp only [newest] at h
    split at h
    case h_1 alone =>
      obtain rfl := newest_eq_none_iff.mp alone
      obtain rfl := Option.some.inj h
      exact Nat.le_of_eq (congrArg _ (List.mem_singleton.mp hf))
    case h_2 b newer =>
      have behind : ∀ c ∈ rest, c.order ≤ b.order := fun c hc => ih newer hc
      split at h
      case isTrue older =>
        obtain rfl := Option.some.inj h
        rcases List.mem_cons.mp hf with rfl | hf
        · exact Nat.le_refl _
        · exact Nat.le_trans (behind f hf) (Nat.le_of_lt older)
      case isFalse younger =>
        obtain rfl := Option.some.inj h
        rcases List.mem_cons.mp hf with rfl | hf
        · exact Nat.not_lt.mp younger
        · exact behind f hf

/-! ## What is left of a table -/

/-- The first table is what is left of the second one: no job was added, and the jobs that are left
have the numbers and the places in the order of registration that they had. -/
structure RestOf (t' t : JobTable) : Prop where
  registered : t'.registered = t.registered
  survived : ∀ e' ∈ t'.entries, ∃ e ∈ t.entries, e.id = e'.id ∧ e.order = e'.order

namespace RestOf

theorem refl (t : JobTable) : t.RestOf t :=
  ⟨rfl, fun e he => ⟨e, he, rfl, rfl⟩⟩

theorem trans (h' : t''.RestOf t') (h : t'.RestOf t) : t''.RestOf t := by
  refine ⟨h'.registered.trans h.registered, fun e'' he'' => ?_⟩
  obtain ⟨e', he', hid', horder'⟩ := h'.survived e'' he''
  obtain ⟨e, he, hid, horder⟩ := h.survived e' he'
  exact ⟨e, he, hid.trans hid', horder.trans horder'⟩

theorem modify (t : JobTable) (id : Nat) (f : Job → Job) : (t.modify id f).RestOf t := by
  refine ⟨rfl, fun e' he' => ?_⟩
  rcases cases_of_mem_modify he' with ⟨he, -⟩ | ⟨e, he, -, rfl⟩
  · exact ⟨e', he, rfl, rfl⟩
  · exact ⟨e, he, rfl, rfl⟩

theorem erase (t : JobTable) (id : Nat) : (t.erase id).RestOf t :=
  ⟨rfl, fun e he => ⟨e, (mem_erase.mp he).1, rfl, rfl⟩⟩

theorem clear (t : JobTable) : t.clear.RestOf t :=
  ⟨rfl, fun _ he => by cases he⟩

theorem settle (t : JobTable) (change : StatusChange) : (t.settle change).RestOf t := by
  rcases settle_eq t change with ⟨-, same⟩ | ⟨e, -, -, -, settled⟩
  · rw [same]
    exact refl t
  · rw [settled]
    split
    · exact (erase _ e.id).trans (modify t e.id _)
    · exact modify t e.id _

theorem reap (t : JobTable) (reports : List Notification) : (t.reap reports).table.RestOf t := by
  rw [table_reap]
  induction reports.filterMap Notification.change? generalizing t with
  | nil => exact refl t
  | cons change rest ih => exact (ih (t.settle change)).trans (settle t change)

/-- A request that registers no job leaves a rest of the table. -/
theorem serve {request : TableRequest} (no_new : (t.serve request).1.newNumber? = none) :
    (t.serve request).2.RestOf t := by
  cases request with
  | register job =>
    cases registered : t.register job with
    | ok result =>
      simp only [JobTable.serve, registered, TableReply.newNumber?] at no_new
      cases no_new
    | error full =>
      simp only [JobTable.serve, registered]
      exact refl t
  | remove id => exact erase t id
  | retire id =>
    simp only [JobTable.serve, retire]
    cases found : t.find? id with
    | none => exact refl t
    | some job =>
      cases ended : job.isComplete || job.isFinished with
      | true =>
        simp only [ended, if_true]
        exact erase t id
      | false =>
        simp only [ended, Bool.false_eq_true, if_false]
        exact refl t
  | record change =>
    simp only [JobTable.serve, record]
    cases t.findByPid? change.pid with
    | none => exact refl t
    | some id => exact modify t id _
  | update id f => exact modify t id f
  | clear => exact clear t

end RestOf

theorem registered_of_register (h : t.register job = .ok (id, t')) :
    t'.registered = t.registered + 1 := by
  simp only [register] at h
  split at h
  · cases h
  · cases h
    rfl

/-- A reply with a new number is that to a registration. -/
theorem register_of_newNumber? {request : TableRequest}
    (new : (t.serve request).1.newNumber? = some id) :
    ∃ job, t.register job = .ok (id, (t.serve request).2) := by
  cases request with
  | register job =>
    refine ⟨job, ?_⟩
    cases registered : t.register job with
    | ok result =>
      simp only [serve, registered, TableReply.newNumber?, Option.some.injEq] at new
      simp only [serve, registered, ← new]
    | error full =>
      simp only [serve, registered, TableReply.newNumber?] at new
      cases new
  | retire id => simp only [serve] at new; split at new <;> cases new
  | record change => simp only [serve] at new; split at new <;> cases new
  | _ => cases new

/-! ## The history of a table -/

/-- The numbers that a table gave out, oldest first: the order of an entry is the last place at
which its number stands. -/
structure Gave (t : JobTable) (given : List Nat) : Prop where
  counted : t.registered = given.length
  placed : ∀ e ∈ t.entries, given[e.order]? = some e.id
  latest : ∀ e ∈ t.entries, ∀ i, given[i]? = some e.id → i ≤ e.order

/-- The last of the numbers given out under which a job of a class is tracked. -/
def lastGiven? (t : JobTable) (given : List Nat) (p : Job → Bool) : Option Nat :=
  (given.filter fun id => (t.find? id).any p).getLast?

namespace Gave

variable {e e' : TableEntry}

theorem empty (capacity : Nat) : (JobTable.empty capacity).Gave [] :=
  ⟨rfl, fun _ he => (by cases he), fun _ he => (by cases he)⟩

theorem order_lt (h : t.Gave given) (he : e ∈ t.entries) : e.order < given.length :=
  (List.getElem?_eq_some_iff.mp (h.placed e he)).1

/-- No two jobs were registered at one time. -/
theorem eq_of_order_eq (h : t.Gave given) (he : e ∈ t.entries) (he' : e' ∈ t.entries)
    (same : e.order = e'.order) : e = e' := by
  refine eq_of_id_eq he he' (Option.some.inj ?_)
  rw [← h.placed e he, ← h.placed e' he', same]

theorem rest (h : t.Gave given) (left : t'.RestOf t) : t'.Gave given where
  counted := left.registered.trans h.counted
  placed := by
    intro e' he'
    obtain ⟨e, he, hid, horder⟩ := left.survived e' he'
    rw [← hid, ← horder]
    exact h.placed e he
  latest := by
    intro e' he' i hi
    obtain ⟨e, he, hid, horder⟩ := left.survived e' he'
    rw [← hid] at hi
    exact Nat.le_trans (h.latest e he i hi) (Nat.le_of_eq horder)

theorem register (h : t.Gave given) (registered : t.register job = .ok (id, t')) :
    t'.Gave (given ++ [id]) where
  counted := by
    rw [registered_of_register registered, h.counted, List.length_append, List.length_singleton]
  placed := by
    intro e he
    rcases (mem_of_register registered).mp he with rfl | he
    · simp only [h.counted, List.getElem?_concat_length]
    · rw [List.getElem?_append_left (h.order_lt he)]
      exact h.placed e he
  latest := by
    intro e he i hi
    have within : i < (given ++ [id]).length := (List.getElem?_eq_some_iff.mp hi).1
    rw [List.length_append, List.length_singleton] at within
    rcases (mem_of_register registered).mp he with rfl | he
    · show i ≤ t.registered
      rw [h.counted]
      omega
    · -- the new number is no other job's, so the last place of such a number is an old one
      have other : e.id ≠ id := (register_eq_ok registered).2.2.2 e he
      have earlier : i ≠ given.length := by
        rintro rfl
        rw [List.getElem?_concat_length] at hi
        exact other (Option.some.inj hi).symm
      rw [List.getElem?_append_left (by omega)] at hi
      exact h.latest e he i hi

theorem serve (h : t.Gave given) (request : TableRequest) :
    (t.serve request).2.Gave (given ++ (t.serve request).1.newNumber?.toList) := by
  cases new : (t.serve request).1.newNumber? with
  | none =>
    rw [Option.toList_none, List.append_nil]
    exact h.rest (.serve new)
  | some id =>
    obtain ⟨job, registered⟩ := register_of_newNumber? new
    exact h.register registered

theorem serveAll (h : t.Gave given) (requests : List TableRequest) :
    (TableRequest.serveAll JobTable.serve t requests).2.Gave
      (given ++ (TableRequest.serveAll JobTable.serve t requests).1.filterMap
        TableReply.newNumber?) := by
  induction requests generalizing t given with
  | nil => simpa only [TableRequest.serveAll, List.filterMap_nil, List.append_nil] using h
  | cons request rest ih =>
    have served := ih (h.serve request)
    rw [List.append_assoc] at served
    simp only [TableRequest.serveAll]
    cases new : (t.serve request).1.newNumber? with
    | none =>
      rw [List.filterMap_cons_none new]
      simpa only [new, Option.toList_none, List.nil_append] using served
    | some id =>
      rw [List.filterMap_cons_some new]
      simpa only [new, Option.toList_some, List.singleton_append] using served

/-- **The most recent job of a class is the one registered last.** -/
theorem mostRecent?_eq (h : t.Gave given) (p : Job → Bool) :
    t.mostRecent? p = t.lastGiven? given p := by
  unfold mostRecent? lastGiven?
  cases recent : newest (t.entries.filter fun e => p e.job) with
  | none =>
    have unheld : given.filter (fun id => (t.find? id).any p) = [] := by
      refine List.filter_eq_nil_iff.mpr fun id _ held => ?_
      obtain ⟨job, found, hp⟩ := Option.any_eq_true _ _ |>.mp held
      obtain ⟨e, he, -, rfl⟩ := find?_eq_some_iff.mp found
      have listed : e ∈ t.entries.filter fun e => p e.job := List.mem_filter.mpr ⟨he, hp⟩
      rw [newest_eq_none_iff.mp recent] at listed
      cases listed
    rw [unheld]
    rfl
  | some e =>
    obtain ⟨he, hp⟩ := List.mem_filter.mp (mem_of_newest recent)
    obtain ⟨within, number⟩ := List.getElem?_eq_some_iff.mp (h.placed e he)
    -- under the numbers given out after this one no job of the class is tracked any more
    have later : (given.drop (e.order + 1)).filter (fun id => (t.find? id).any p) = [] := by
      refine List.filter_eq_nil_iff.mpr fun id hid held => ?_
      obtain ⟨job, found, hp'⟩ := Option.any_eq_true _ _ |>.mp held
      obtain ⟨e', he', rfl, rfl⟩ := find?_eq_some_iff.mp found
      obtain ⟨i, hi⟩ := List.mem_iff_getElem?.mp hid
      rw [List.getElem?_drop] at hi
      have place := h.latest e' he' _ hi
      have newest := order_le_of_newest recent (List.mem_filter.mpr ⟨he', hp'⟩)
      omega
    have held : (t.find? e.id).any p = true := by
      rw [find?_of_mem he]
      exact hp
    rw [← List.take_append_drop e.order given, List.drop_eq_getElem_cons within, number,
      List.filter_append, List.filter_cons, if_pos held, later, List.getLast?_append]
    rfl

end Gave

/-- What the numbers that a table gave out, oldest first, tell about its jobs. -/
structure Recency (t : JobTable) (given : List Nat) : Prop where
  /-- The most recent job in the background is the one registered last, and there is none only if no
  job is in the background. -/
  background : t.mostRecentBackground? = t.lastGiven? given (·.mode == .background) ∧
    (t.mostRecentBackground? = none ↔ ∀ e ∈ t.entries, e.job.mode ≠ .background)
  /-- The same for the jobs with a suspended stage. -/
  suspended : t.mostRecentSuspended? = t.lastGiven? given Job.isSuspended ∧
    (t.mostRecentSuspended? = none ↔ ∀ e ∈ t.entries, e.job.isSuspended = false)
  /-- The order tells the jobs apart, and it is the one in which they were registered. -/
  distinct : ∀ e ∈ t.entries, ∀ e' ∈ t.entries, e.order = e'.order → e = e'
  placed : ∀ e ∈ t.entries, given[e.order]? = some e.id ∧
    ∀ i, given[i]? = some e.id → i ≤ e.order
  /-- A request leaves the jobs that stay in their order, and a new job comes last in it. -/
  kept : ∀ request, ∀ e' ∈ (t.serve request).2.entries,
    (∃ e ∈ t.entries, e.id = e'.id ∧ e.order = e'.order) ∨
      ((t.serve request).1 = .registered e'.id ∧ ∀ e ∈ t.entries, e.order < e'.order)

/-- A job that is registered comes last in the order. -/
theorem Gave.cases_of_mem_register (h : t.Gave given) (registered : t.register job = .ok (id, t'))
    {e' : TableEntry} (he' : e' ∈ t'.entries) :
    e' ∈ t.entries ∨ (e'.id = id ∧ ∀ e ∈ t.entries, e.order < e'.order) := by
  rcases (mem_of_register registered).mp he' with rfl | he'
  · refine Or.inr ⟨rfl, fun e he => ?_⟩
    have := h.order_lt he
    simp only [h.counted]
    omega
  · exact Or.inl he'

theorem Gave.recency (h : t.Gave given) : t.Recency given where
  background := by
    refine ⟨h.mostRecent?_eq _, ?_⟩
    rw [mostRecentBackground?, mostRecent?_eq_none_iff]
    simp only [beq_eq_false_iff_ne]
  suspended := ⟨h.mostRecent?_eq _, mostRecent?_eq_none_iff⟩
  distinct := fun _ he _ he' => h.eq_of_order_eq he he'
  placed := fun e he => ⟨h.placed e he, h.latest e he⟩
  kept := by
    intro request e' he'
    cases new : (t.serve request).1.newNumber? with
    | none => exact Or.inl ((RestOf.serve new).survived e' he')
    | some id =>
      obtain ⟨job, registered⟩ := register_of_newNumber? new
      rcases h.cases_of_mem_register registered he' with he | ⟨rfl, youngest⟩
      · exact Or.inl ⟨e', he, rfl, rfl⟩
      · refine Or.inr ⟨?_, youngest⟩
        cases reply : (t.serve request).1 <;> rw [reply] at new <;> cases new
        rfl

/-- The replies to requests are the history of the table that served them. -/
theorem recency_serveAll (capacity : Nat) (requests : List TableRequest) :
    (TableRequest.serveAll serve (.empty capacity) requests).2.Recency
      ((TableRequest.serveAll serve (.empty capacity) requests).1.filterMap
        TableReply.newNumber?) :=
  ((Gave.empty capacity).serveAll requests).recency

end JobTable

end JobControl
