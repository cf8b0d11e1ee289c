import Mathlib
import RecordStore.Proofs.Query.Execution
import RecordStore.Proofs.Table.Failure
import RecordStore.Proofs.Table.Matching

/-!
# Queries that fail

A query that fails, with an error in its result or with a fault, leaves the database and the disk as
they were, unless its command has been left half done: the reading, the looking up and all checks
come before the first change.  The same holds of the requests that are made to tables directly.
Only tables with declared columns whose defaults cannot be keys are different, since these defaults
come to the indexes unchecked.
-/

namespace RecordStore

/-- The tables of the database with all that they hold, and the files, are as before. -/
def Site.Kept (site after : Site) : Prop :=
  after.database = site.database ∧ after.world.disk = site.world.disk

namespace Query

variable {site : Site}

/-- A query can be left half done, and then something has changed. -/
def CanSlip (site : Site) (text : String) : Prop :=
  ∃ command after, Command.ofText text = .ok command ∧ LeavesHalfDone site command after ∧
    ¬site.Kept after

/-- How a fault is handled does not matter for what has been kept. -/
lemma kept_handled_iff (text : String) (fault : Fault) (after : Site) :
    site.Kept (handled text fault after).2 ↔ site.Kept after := by
  obtain ⟨hdatabase, hdisk⟩ := handled_frame text fault after
  rw [Site.Kept, Site.Kept, hdatabase, hdisk]

/-- A query that is left half done with a change fails. -/
lemma CanSlip.failed (h : site.database.TablesArise) {text : String} (hslip : CanSlip site text) :
    Failed ((execute text).perform site).1 ∧ ¬site.Kept ((execute text).perform site).2 := by
  obtain ⟨command, after, hread, hhalf, hchanged⟩ := hslip
  obtain ⟨fault, heq⟩ := hhalf.perform_execute h hread
  rw [heq]
  exact ⟨failed_handled text fault after, mt (kept_handled_iff text fault after).mp hchanged⟩

/-- If a query fails it leaves database and disk as they were, exactly if it cannot be left half
done with a change. -/
lemma kept_execute_iff (h : site.database.TablesArise) (text : String) :
    (Failed ((execute text).perform site).1 → site.Kept ((execute text).perform site).2) ↔
      ¬CanSlip site text := by
  constructor
  · intro hkept hslip
    obtain ⟨hfailed, hchanged⟩ := hslip.failed h
    exact hchanged (hkept hfailed)
  · intro hslip hfailed
    rcases execute_cases h text with ⟨fault, heq⟩ | ⟨result, after, hsuccess, -, heq⟩ |
      ⟨command, after, hread, hhalf⟩
    · rw [heq, kept_handled_iff]
      exact ⟨rfl, rfl⟩
    · rw [heq] at hfailed
      rw [show result.success = false from hfailed] at hsuccess
      cases hsuccess
    · obtain ⟨fault, heq⟩ := hhalf.perform_execute h hread
      rw [heq, kept_handled_iff]
      by_contra hchanged
      exact hslip ⟨command, after, hread, hhalf, hchanged⟩

/-- At every site that comes about, a query that fails leaves all tables and files as they were,
exactly if it cannot be left half done with a change; and a request that is made to a table directly
and fails does nothing at all, exactly if it is not a deletion that breaks off. -/
theorem kept_of_failed_iff (harises : site.Arises) :
    (∀ text,
      (Failed ((execute text).perform site).1 → site.Kept ((execute text).perform site).2) ↔
        ¬CanSlip site text) ∧
    ∀ table : Table, table.Arises → ∀ request,
      (∀ fault, (table.reply request).result = .error fault →
          table.reply request = .refused table fault) ↔
        ¬∃ conditions, request = .delete conditions ∧ table.BreaksOff conditions := by
  constructor
  · intro text
    exact kept_execute_iff harises.tablesArise text
  · intro table htable request
    exact htable.steady.refused_of_error_iff request

/-- The site of a database that has been opened without files. -/
def openedSite : Site :=
  ⟨⟨"db", "db", [], false⟩, ⟨⟨[(["db"], .directory)]⟩, [.databaseOpened "db" 0]⟩⟩

/-- The site after a table with a unique column has been made and a record has been inserted. -/
def filledSite : Site :=
  ((execute "INSERT INTO t (a) VALUES (1)").perform
    ((execute "CREATE TABLE t (a number UNIQUE)").perform openedSite).2).2

/-- Without files a database is opened like that. -/
lemma open_empty :
    Database.open "" (.text "db") .empty = (.ok openedSite.database, openedSite.world) := by
  cbv

/-- The site of the opened database comes about. -/
lemma arises_openedSite : openedSite.Arises :=
  .opened open_empty

/-- At the site with one record a second one with the same number fails, and for this query and for
dropping the index on a unique column the two halves hold. -/
theorem kept_of_failed_iff_filledSite :
    filledSite.Arises ∧ Failed ((execute "INSERT INTO t (a) VALUES (1)").perform filledSite).1 ∧
    ((Failed ((execute "INSERT INTO t (a) VALUES (1)").perform filledSite).1 →
        filledSite.Kept ((execute "INSERT INTO t (a) VALUES (1)").perform filledSite).2) ↔
      ¬CanSlip filledSite "INSERT INTO t (a) VALUES (1)") ∧
    ∃ table effects fault, Table.create "t" Table.twoColumns "d" = .ok (table, effects) ∧
      (table.reply (.dropIndex (.text "a"))).result = .error fault ∧
      table.reply (.dropIndex (.text "a")) = .refused table fault := by
  have hsite : filledSite.Arises := (arises_openedSite.executed _).executed _
  have hfailed : Failed ((execute "INSERT INTO t (a) VALUES (1)").perform filledSite).1 := by
    decide +kernel
  refine ⟨hsite, hfailed, (kept_of_failed_iff hsite).1 _, ?_⟩
  have hcolumns := Table.isDescribed_twoColumns.hasKeyDefaults
  refine ⟨_, _, _, rfl, rfl, ?_⟩
  refine ((kept_of_failed_iff hsite).2 _ (.created hcolumns rfl) _).mpr ?_ _ rfl
  rintro ⟨conditions, hdelete, -⟩
  cases hdelete

/-- If a default cannot be a key, an insertion fails after the row has been stored. -/
theorem reply_ne_refused_listDefault : ∃ created effects fault,
    Table.create "t" Table.listDefault "d" = .ok (created, effects) ∧
      (created.reply (.insert (.map [(.text "b", .int 2)]))).result = .error fault ∧
      (created.reply (.insert (.map [(.text "b", .int 2)]))).table.rows.length ≠
        created.rows.length :=
  ⟨_, _, _, rfl, rfl, by decide⟩

end Query

end RecordStore
