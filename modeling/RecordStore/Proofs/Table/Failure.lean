import RecordStore.Proofs.Table.Agreement
import RecordStore.Proofs.Table.Loading

/-!
# Requests that fail

A request that fails has been refused before anything has been changed or written, with one
exception: a deletion can come upon an id under which no row is left, after it has removed others.
This takes two rows that have come under one id, which only happens to a table that has been loaded;
a table that has been made refuses every request that fails.
-/

namespace RecordStore.Table

variable {table : Table}

/-- A deletion breaks off: it comes upon an id under which no row is left, and what it has removed
before has changed the table. -/
def BreaksOff (table : Table) (conditions : Value) : Prop :=
  ∃ targets before, table.matching conditions = .ok targets ∧ table.StopsAfter targets before ∧
    table.removedAll before ≠ table

/-- A deletion that breaks off fails, and it has changed the table. -/
lemma Steady.delete_of_breaksOff (h : table.Steady) {conditions : Value}
    (hbreaks : table.BreaksOff conditions) :
    (table.reply (.delete conditions)).result = .error .missingRow ∧
      (table.reply (.delete conditions)).table ≠ table := by
  obtain ⟨targets, before, hmatching, hstops, hchanged⟩ := hbreaks
  rw [reply, h.delete_of_stopsAfter hmatching hstops]
  exact ⟨rfl, hchanged⟩

/-- If a request fails it has been refused and has done nothing, exactly if it is not a deletion
that breaks off. -/
theorem Steady.refused_of_error_iff (h : table.Steady) (request : Request) :
    (∀ fault, (table.reply request).result = .error fault →
        table.reply request = .refused table fault) ↔
      ¬∃ conditions, request = .delete conditions ∧ table.BreaksOff conditions := by
  constructor
  · rintro hrefused ⟨conditions, rfl, hbreaks⟩
    obtain ⟨hfault, hchanged⟩ := h.delete_of_breaksOff hbreaks
    exact hchanged (congrArg Reply.table (hrefused _ hfault))
  · intro hkept fault hfault
    rcases h.reply_cases request with ⟨fault', heq⟩ | ⟨table', effects, -, heq⟩ |
      ⟨conditions, targets, before, rfl, hmatching, hstops, heq⟩
    · rw [heq] at hfault ⊢
      obtain rfl : fault' = fault := by simpa [Reply.refused] using hfault
      rfl
    · rw [heq] at hfault
      cases hfault
    · rw [heq] at hfault ⊢
      obtain rfl : Fault.missingRow = fault := by simpa using hfault
      have hsame : table.removedAll before = table := by
        by_contra hchanged
        exact hkept ⟨conditions, rfl, targets, before, hmatching, hstops, hchanged⟩
      rw [hsame]
      rfl

/-- A request to a table that has been made, after any other requests, has been refused and has done
nothing if it fails. -/
theorem refused_of_error_of_create {name directory : String} {source : SchemaSource}
    (hsource : source.HasKeyDefaults) {created : Table} {effects : List Effect}
    (hcreate : Table.create name source directory = .ok (created, effects))
    (requests : List Request) {request : Request} {fault : Fault}
    (hfault : ((created.run requests).reply request).result = .error fault) :
    (created.run requests).reply request = .refused (created.run requests) fault := by
  obtain ⟨schema, hschema, -⟩ := create_eq_ok hcreate
  obtain ⟨-, hmade, -, hempty⟩ := lists_of_create (hsource.sound hschema) hschema hcreate
  have hreaches := hmade.reaches_run requests
  have hsteady := hmade.reaches hreaches
  obtain ⟨records, hlists⟩ := hempty.reaches hmade hreaches
  refine (hsteady.refused_of_error_iff request).mpr ?_ fault hfault
  rintro ⟨conditions, -, targets, before, hmatching, hstops, -⟩
  exact hlists.not_stopsAfter hsteady hmatching before hstops

end RecordStore.Table
