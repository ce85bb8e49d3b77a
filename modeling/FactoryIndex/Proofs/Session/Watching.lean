import FactoryIndex.Proofs.Session.Polling
import FactoryIndex.Proofs.Session.Reported

/-!
# A watch over a run of polls

A watch begins with a snapshot of the files that its globs select, and every poll compares with the last snapshot and
takes a new one before anybody is told. So what a poll reports is the difference between the files as they are and as
they were when somebody looked last, whatever has become of them in between. `Reports` says what that difference is.

Polls follow one another, and the reports of all of them, applied in order to the files there were at the beginning,
lead to the files there are. That holds along every run, whatever trees the files go through: a file may vanish and come
back, or be reported as changed by one poll and as deleted by the next. Folders count for files here as far as globs
select them; an entry that has no time, such as one with nothing behind it, counts as missing.

Everybody who listens hears every report. Neither a session that brings its index up to date nor somebody who takes
notes can fail at that, so no call is left out.
-/

namespace FactoryIndex

/-- Whether the files of a folder can be listed depends on the folder and on the globs, and not on the files. -/
theorem Tree.exists_list_eq_ok {tree : Tree} {folder : Path} {globs : List RawText} {listed : List RawText}
    (hlisted : tree.list folder globs = .ok listed) (other : Tree) : ∃ files, other.list folder globs = .ok files := by
  unfold Tree.list at hlisted ⊢
  simp only at hlisted ⊢
  split at hlisted
  · next hempty => exact ⟨_, if_pos hempty⟩
  · next hsome =>
    rw [if_neg hsome]
    split at hlisted
    · cases hlisted
    · split at hlisted
      · cases hlisted
      · split
        · exact ⟨_, rfl⟩
        · exact ⟨_, rfl⟩

namespace Session

/-! ### Differences between two states of the files -/

/-- What is reported about files whose times have gone from one state to another: each file once at most, as created if
it is new, as changed if its time is later, and as deleted if it is missing. -/
structure Reports (before now : RawText → Option Int) (found : List (RawText × ChangeKind)) : Prop where
  once : (found.map Prod.fst).Nodup
  created_iff : ∀ file, (file, .created) ∈ found ↔ before file = none ∧ now file ≠ none
  changed_iff : ∀ file, (file, .changed) ∈ found ↔
    ∃ old new, before file = some old ∧ now file = some new ∧ old < new
  deleted_iff : ∀ file, (file, .deleted) ∈ found ↔ before file ≠ none ∧ now file = none

theorem sublist_map_fst_filterMap {α β γ : Type} {f : α × β → Option (α × γ)}
    (hf : ∀ entry result, f entry = some result → result.1 = entry.1) (entries : List (α × β)) :
    ((entries.filterMap f).map Prod.fst).Sublist (entries.map Prod.fst) := by
  induction entries with
  | nil => exact List.Sublist.slnil
  | cons entry rest ih =>
      cases hentry : f entry with
      | none =>
          rw [List.filterMap_cons_none hentry]
          exact ih.cons _
      | some result =>
          rw [List.filterMap_cons_some hentry, List.map_cons, List.map_cons, hf entry result hentry]
          exact ih.cons_cons _

theorem sublist_keys_changes (old new : OrderedMap RawText Int) :
    ((new.entries.filterMap fun (file, time) =>
      match old.get? file with
      | none => some (file, ChangeKind.created)
      | some previous => if previous < time then some (file, .changed) else none).map Prod.fst).Sublist new.keys := by
  apply sublist_map_fst_filterMap
  rintro ⟨file, time⟩ result hresult
  simp only at hresult
  split at hresult
  · cases hresult
    rfl
  · split at hresult
    · cases hresult
      rfl
    · cases hresult

theorem nodup_changes (old new : OrderedMap RawText Int) : ((changes old new).map Prod.fst).Nodup := by
  have hpresent := sublist_keys_changes old new
  unfold changes
  rw [List.map_append, List.map_map, List.nodup_append]
  refine ⟨hpresent.nodup new.nodup, ?_, ?_⟩
  · rw [show (Prod.fst ∘ fun file : RawText => (file, ChangeKind.deleted)) = id from rfl, List.map_id]
    exact old.nodup.filter _
  · intro file hfile other hother heq
    obtain ⟨gone, hgone, rfl⟩ := List.mem_map.1 hother
    have hkey : file ∈ new.keys := hpresent.subset hfile
    have hnone : new.get? file = none := by
      have := (List.mem_filter.1 hgone).2
      simpa [OrderedMap.contains, heq] using this
    exact (new.get?_eq_none_iff file).1 hnone hkey

theorem reports_changes (old new : OrderedMap RawText Int) : Reports old.get? new.get? (changes old new) := by
  refine ⟨nodup_changes old new, fun file => ?_, fun file => ?_, fun file => ?_⟩
  all_goals
    rw [mem_changes_iff, changeBetween]
    cases old.get? file with
    | none => cases new.get? file with
      | none => simp
      | some time => simp
    | some previous => cases new.get? file with
      | none => simp
      | some time => by_cases hlater : previous < time <;> simp [hlater]

variable {before now : RawText → Option Int} {found : List (RawText × ChangeKind)}

theorem Reports.eq_nil (h : Reports before now found) (hsame : ∀ file, before file = now file) : found = [] := by
  rw [List.eq_nil_iff_forall_not_mem]
  rintro ⟨file, kind⟩ hmem
  cases kind with
  | created =>
      obtain ⟨hnone, hsome⟩ := (h.created_iff file).1 hmem
      exact hsome ((hsame file).symm.trans hnone)
  | changed =>
      obtain ⟨old, new, hold, hnew, hlt⟩ := (h.changed_iff file).1 hmem
      rw [hsame, hnew] at hold
      cases hold
      exact lt_irrefl old hlt
  | deleted =>
      obtain ⟨hsome, hnone⟩ := (h.deleted_iff file).1 hmem
      exact hsome ((hsame file).trans hnone)

def applyReport (files : Set RawText) : RawText × ChangeKind → Set RawText
  | (file, .created) => insert file files
  | (_, .changed) => files
  | (file, .deleted) => files \ {file}

theorem mem_applyReport_of_ne {files : Set RawText} {file other : RawText} (hne : file ≠ other) (kind : ChangeKind) :
    file ∈ applyReport files (other, kind) ↔ file ∈ files := by
  cases kind <;> simp [applyReport, hne]

/-- Of reports about different files, only one concerns a file. -/
theorem mem_foldl_applyReport (honce : (found.map Prod.fst).Nodup) (files : Set RawText) (file : RawText) :
    file ∈ found.foldl applyReport files ↔
      (file, .created) ∈ found ∨ (file ∈ files ∧ (file, .deleted) ∉ found) := by
  induction found generalizing files with
  | nil => simp
  | cons report rest ih =>
      obtain ⟨other, kind⟩ := report
      rw [List.map_cons, List.nodup_cons] at honce
      rw [List.foldl_cons, ih honce.2]
      by_cases hfile : file = other
      · subst hfile
        have hrest : ∀ kind', (file, kind') ∉ rest := fun kind' hmem => honce.1 (List.mem_map.2 ⟨_, hmem, rfl⟩)
        cases kind <;> simp [hrest, applyReport]
      · rw [mem_applyReport_of_ne hfile]
        simp [hfile]

theorem Reports.foldl_applyReport (h : Reports before now found) :
    found.foldl applyReport {file | before file ≠ none} = {file | now file ≠ none} := by
  ext file
  rw [mem_foldl_applyReport h.once, h.created_iff, h.deleted_iff, Set.mem_ofPred_eq, Set.mem_ofPred_eq]
  by_cases hbefore : before file = none
  · simp [hbefore]
  · simp [hbefore]

/-! ### Everybody who listens hears every report -/

section Calls

variable {source : Source} {session : Session}

theorem notes_handleChange (source : Source) (clock : Clock) (file kind : Value) (session : Session) :
    (session.handleChange source clock file kind).1.notes = session.notes :=
  (confined_handleChange source clock file kind session).view_eq Session.notes fun _ _ _ => rfl

/-- To be told that a file is gone, or that it is there when it has a time, cannot fail. -/
theorem tell_succeeds (hregular : source.Regular) {change : RawText × ChangeKind}
    (hchange : change.2 ≠ .deleted → ∃ time, source.modified (.raw change.1) = .ok time) (moment : Moment)
    (listener : Listener) (session : Session) : (session.tell source moment.clock change listener).2 = .ok () := by
  obtain ⟨file, kind⟩ := change
  cases listener with
  | notes => rfl
  | session =>
      have hhandled : ∃ reindexed,
          (session.handleChange source moment.clock (.raw file) (.text kind.name)).2 = .ok reindexed := by
        by_cases hkind : kind = .deleted
        · subst hkind
          exact ⟨true, (handleChange_deleted source moment.clock file session).1⟩
        · obtain ⟨time, hmodified⟩ := hchange hkind
          cases hreindex : session.store.shouldReindex file time with
          | false => exact ⟨false, by rw [handleChange_settled hkind hmodified hreindex]⟩
          | true =>
              exact ⟨true, (handleChange_reindexed moment hkind hmodified hreindex fun failure hread =>
                hregular.isUnreadable file time failure hmodified hread).1⟩
      obtain ⟨reindexed, hhandled⟩ := hhandled
      simp only [tell, hhandled]
      rfl

theorem tellAll_eq_foldl {clock : Clock} {calls : List ((RawText × ChangeKind) × Listener)}
    (hcalls : ∀ call ∈ calls, ∀ session : Session, (session.tell source clock call.1 call.2).2 = .ok ())
    (session : Session) :
    session.tellAll source clock calls =
      (calls.foldl (fun session call => (session.tell source clock call.1 call.2).1) session, .ok ()) := by
  induction calls generalizing session with
  | nil => rfl
  | cons call rest ih =>
      have hfirst : session.tell source clock call.1 call.2 =
          ((session.tell source clock call.1 call.2).1, .ok ()) := by rw [← hcalls call List.mem_cons_self session]
      rw [tellAll, hfirst]
      exact ih (fun other hother => hcalls other (List.mem_cons_of_mem _ hother)) _

theorem notes_foldl_tell (source : Source) (clock : Clock) (calls : List ((RawText × ChangeKind) × Listener))
    (session : Session) :
    (calls.foldl (fun session call => (session.tell source clock call.1 call.2).1) session).notes =
      session.notes ++ (calls.filter fun call => call.2 = .notes).map Prod.fst := by
  induction calls generalizing session with
  | nil => simp
  | cons call rest ih =>
      obtain ⟨change, listener⟩ := call
      rw [List.foldl_cons, ih]
      cases listener with
      | notes => simp [tell]
      | session => simp [tell, notes_handleChange]

theorem exists_calls (found : List (RawText × ChangeKind)) (listeners : List Listener) :
    ∃ calls : List ((RawText × ChangeKind) × Fin listeners.length),
      (∀ n, (calls.filter fun call => call.2 = n).map Prod.fst = found) ∧
      (found.flatMap fun change => listeners.map fun listener => (change, listener)) =
        calls.map fun call => (call.1, listeners.get call.2) := by
  refine ⟨found.flatMap fun change => (List.finRange listeners.length).map fun n => (change, n), fun n => ?_, ?_⟩
  · have hone : (List.finRange listeners.length).filter (fun m => m = n) = [n] := by
      rw [List.filter_eq, List.count_eq_one_of_mem (List.nodup_finRange _) (List.mem_finRange n)]
      rfl
    have hcall (change : RawText × ChangeKind) :
        ((((List.finRange listeners.length).map fun m => (change, m)).filter fun call => call.2 = n).map Prod.fst) =
          [change] := by
      rw [List.filter_map]
      simp only [Function.comp_def, hone, List.map_cons, List.map_nil]
    rw [List.filter_flatMap, List.map_flatMap]
    simp only [hcall, List.flatMap_singleton']
  · have hall (change : RawText × ChangeKind) : listeners.map (fun listener => (change, listener)) =
        ((List.finRange listeners.length).map fun n => (change, n)).map
          fun call => (call.1, listeners.get call.2) := by
      conv_lhs => rw [← List.map_get_finRange listeners]
      rw [List.map_map, List.map_map]
      rfl
    rw [List.map_flatMap]
    simp only [hall]

end Calls

/-! ### Runs -/

/-- The time of a file that globs select. There is none if there is no such file, or its time cannot be told. -/
def time? (tree : Tree) (folder : Path) (globs : List RawText) (file : RawText) : Option Int :=
  match tree.list folder globs with
  | .ok listed => if file ∈ listed then ((tree.source folder).modified (.raw file)).toOption else none
  | .error _ => none

def look (source : Source) (listed : List RawText) (session : Session) : Session :=
  { session.record (snapshot source listed).2 with
    watch := { session.watch with snapshot := (snapshot source listed).1 } }

theorem notes_look (source : Source) (listed : List RawText) (session : Session) :
    (session.look source listed).notes = session.notes := rfl

/-- A session that watches a folder, the files there are and those there were when it looked last, and all reports. -/
structure Watched where
  tree : Tree
  session : Session
  seen : Tree
  reports : List (RawText × ChangeKind) := []

/-- What may happen during a watch: files are edited, made and removed; somebody else listens; somebody polls; or the
session does any other work, which leaves the watch alone. -/
inductive Turn where
  | files (tree : Tree)
  | listen (listener : Listener)
  | poll (moment : Moment)
  | work (act : Session → Session) (hwatch : ∀ session, (act session).watch = session.watch)

namespace Watched

def start (folder : Path) (tree : Tree) (listener : Listener) (session : Session) : Watched where
  tree := tree
  session := (session.listen (tree.source folder) listener).1
  seen := tree

def take (folder : Path) (watched : Watched) : Turn → Watched
  | .files tree => { watched with tree := tree }
  | .listen listener =>
    { watched with session := (watched.session.listen (watched.tree.source folder) listener).1 }
  | .poll moment =>
    let (session, outcome) := watched.session.poll (watched.tree.source folder) moment.clock
    { watched with
        session := session
        seen := watched.tree
        reports := watched.reports ++ outcome.toOption.getD [] }
  | .work act _ => { watched with session := act watched.session }

def takeAll (folder : Path) (watched : Watched) (turns : List Turn) : Watched := turns.foldl (take folder) watched

/-- The last snapshot is that of the files that were seen last, and all reports together lead to them. -/
structure Sound (folder : Path) (globs : List RawText) (origin : Tree) (watched : Watched) : Prop where
  patterns_eq : watched.session.watch.patterns = globs
  listens : watched.session.watch.listeners ≠ []
  looked : ∃ listed, watched.seen.list folder globs = .ok listed ∧
    watched.session.watch.snapshot = (snapshot (watched.seen.source folder) listed).1
  reports_eq : watched.reports.foldl applyReport {file | time? origin folder globs file ≠ none} =
    {file | time? watched.seen folder globs file ≠ none}

variable {folder : Path} {globs : List RawText} {origin tree : Tree} {watched : Watched} {session : Session}

theorem get?_snapshot_eq_time? {listed : List RawText} (hlisted : tree.list folder globs = .ok listed) :
    (snapshot (tree.source folder) listed).1.get? = time? tree folder globs := by
  funext file
  rw [get?_snapshot, time?, hlisted]

theorem exists_modified_of_time? {file : RawText} (hthere : time? tree folder globs file ≠ none) :
    ∃ time, (tree.source folder).modified (.raw file) = .ok time := by
  unfold time? at hthere
  split at hthere
  · split at hthere
    · cases hmodified : (tree.source folder).modified (.raw file) with
      | ok time => exact ⟨time, rfl⟩
      | error failure =>
          rw [hmodified] at hthere
          exact absurd rfl hthere
    · exact absurd rfl hthere
  · exact absurd rfl hthere

theorem sound_start {listener : Listener} (hfirst : session.watch.listeners = [])
    (hlisten : (session.listen (tree.source folder) listener).2 = .ok ()) :
    (start folder tree listener session).Sound folder session.watch.patterns tree := by
  have htracks : (tree.source folder).tracksChanges = true := rfl
  cases hlisted : (tree.source folder).list session.watch.patterns with
  | error failure =>
      simp only [listen, hfirst, List.isEmpty_nil, if_true, restartWatch_of_error htracks hlisted] at hlisten
      cases hlisten
  | ok listed =>
      have hwatch : (session.listen (tree.source folder) listener).1.watch =
          ⟨session.watch.patterns, (snapshot (tree.source folder) listed).1, [listener]⟩ := by
        simp only [listen, hfirst, List.isEmpty_nil, if_true, restartWatch_of_ok htracks hlisted, record,
          List.nil_append]
      refine ⟨?_, ?_, ⟨listed, hlisted, ?_⟩, rfl⟩
      · rw [start, hwatch]
      · rw [start, hwatch]
        exact List.cons_ne_nil _ _
      · rw [start, hwatch]

/-- What a poll does during a watch. -/
theorem Sound.poll (h : watched.Sound folder globs origin) (moment : Moment) :
    ∃ found listed, watched.tree.list folder globs = .ok listed ∧
      Reports (time? watched.seen folder globs) (time? watched.tree folder globs) found ∧
      watched.session.poll (watched.tree.source folder) moment.clock =
        ((found.flatMap fun change => watched.session.watch.listeners.map fun listener => (change, listener)).foldl
          (fun session call => (session.tell (watched.tree.source folder) moment.clock call.1 call.2).1)
          (watched.session.look (watched.tree.source folder) listed), .ok found) := by
  have hregular := watched.tree.regular_source folder
  obtain ⟨seen, hseen, hsnapshot⟩ := h.looked
  obtain ⟨listed, hlisted⟩ := Tree.exists_list_eq_ok hseen watched.tree
  have hlist : (watched.tree.source folder).list watched.session.watch.patterns = .ok listed := by
    rw [h.patterns_eq]
    exact hlisted
  have hpoll : watched.session.poll (watched.tree.source folder) moment.clock =
      let found := changes watched.session.watch.snapshot (snapshot (watched.tree.source folder) listed).1
      let told := (watched.session.look (watched.tree.source folder) listed).tellAll (watched.tree.source folder)
        moment.clock
        (found.flatMap fun change => watched.session.watch.listeners.map fun listener => (change, listener))
      (told.1, told.2.map fun _ => found) := poll_of_ok hregular.tracksChanges hlist moment.clock
  have hreports := reports_changes watched.session.watch.snapshot (snapshot (watched.tree.source folder) listed).1
  generalize changes watched.session.watch.snapshot (snapshot (watched.tree.source folder) listed).1 = found
    at hreports hpoll
  rw [hsnapshot, get?_snapshot_eq_time? hseen, get?_snapshot_eq_time? hlisted] at hreports
  have hcalls : ∀ call ∈ found.flatMap fun change =>
        watched.session.watch.listeners.map fun listener => (change, listener), ∀ session : Session,
      (session.tell (watched.tree.source folder) moment.clock call.1 call.2).2 = .ok () := by
    intro call hcall session
    obtain ⟨⟨file, kind⟩, hchange, hcall⟩ := List.mem_flatMap.1 hcall
    obtain ⟨listener, -, rfl⟩ := List.mem_map.1 hcall
    apply tell_succeeds hregular
    intro hkind
    apply exists_modified_of_time?
    cases kind with
    | created => exact ((hreports.created_iff file).1 hchange).2
    | changed =>
        obtain ⟨_, time, -, htime, -⟩ := (hreports.changed_iff file).1 hchange
        rw [htime]
        exact Option.some_ne_none time
    | deleted => exact absurd rfl hkind
  simp only [tellAll_eq_foldl hcalls] at hpoll
  exact ⟨found, listed, hlisted, hreports, hpoll⟩

theorem watch_foldl_tell (source : Source) (clock : Clock) (calls : List ((RawText × ChangeKind) × Listener))
    (session : Session) :
    (calls.foldl (fun session call => (session.tell source clock call.1 call.2).1) session).watch = session.watch := by
  apply List.foldlRecOn (motive := fun after : Session => after.watch = session.watch) calls _ rfl
  intro after hafter call _
  rw [← hafter]
  cases call.2 with
  | notes => rfl
  | session => exact (sameBut_handleChange ..).watch_eq

theorem Sound.take (h : watched.Sound folder globs origin) (turn : Turn) :
    (watched.take folder turn).Sound folder globs origin := by
  cases turn with
  | files tree => exact ⟨h.patterns_eq, h.listens, h.looked, h.reports_eq⟩
  | listen listener =>
      have hsome : watched.session.watch.listeners.isEmpty = false := by
        rw [List.isEmpty_eq_false_iff]
        exact h.listens
      have hlisten : (watched.session.listen (watched.tree.source folder) listener).1 = { watched.session with
          watch := { watched.session.watch with listeners := watched.session.watch.listeners ++ [listener] } } := by
        simp only [listen, hsome, Bool.false_eq_true, if_false]
      rw [Watched.take, hlisten]
      exact ⟨h.patterns_eq, List.append_ne_nil_of_left_ne_nil h.listens _, h.looked, h.reports_eq⟩
  | poll moment =>
      obtain ⟨found, listed, hlisted, hreports, hpoll⟩ := h.poll moment
      have hwatch : (watched.session.poll (watched.tree.source folder) moment.clock).1.watch =
          { watched.session.watch with snapshot := (snapshot (watched.tree.source folder) listed).1 } := by
        rw [hpoll, watch_foldl_tell]
        rfl
      refine ⟨?_, ?_, ⟨listed, hlisted, ?_⟩, ?_⟩
      · simp only [Watched.take, hwatch]
        exact h.patterns_eq
      · simp only [Watched.take, hwatch]
        exact h.listens
      · simp only [Watched.take, hwatch]
      · simp only [Watched.take, hpoll, Except.toOption, Option.getD_some]
        rw [List.foldl_append, h.reports_eq, hreports.foldl_applyReport]
  | work act hwatch =>
      refine ⟨?_, ?_, ?_, h.reports_eq⟩
      · rw [Watched.take, hwatch]
        exact h.patterns_eq
      · rw [Watched.take, hwatch]
        exact h.listens
      · rw [Watched.take, hwatch]
        exact h.looked

theorem Sound.takeAll (h : watched.Sound folder globs origin) (turns : List Turn) :
    (watched.takeAll folder turns).Sound folder globs origin := by
  induction turns generalizing watched with
  | nil => exact h
  | cons turn rest ih => exact ih (h.take turn)

end Watched

/-- **Every poll reports what has changed since somebody looked last, once, to everybody who listens.** Let a watch begin
when somebody listens to a session that nobody has listened to, and take any turns after that: files may be anything in
between, others may listen, and the session may do any work that leaves its watch alone. Then to poll succeeds. It
reports each file once at most: as created if it is new since the last poll, or since the watch began, as changed if its
time is later, and as deleted if it is missing. All reports up to now, applied in order to the files there were when the
watch began, lead to the files there are. If no time has changed nothing is reported. There is one call for each report
and each listener, and every listener gets all reports in their order, which is also what somebody who takes notes has
noted. -/
theorem polls_report_each_change_once {folder : Path} {tree : Tree} {session : Session} {listener : Listener}
    (hfirst : session.watch.listeners = [])
    (hlisten : (session.listen (tree.source folder) listener).2 = .ok ()) (turns : List Turn) (moment : Moment) :
    let globs := session.watch.patterns
    let watched := (Watched.start folder tree listener session).takeAll folder turns
    let source := watched.tree.source folder
    let listeners := watched.session.watch.listeners
    let polled := watched.session.poll source moment.clock
    let before := time? watched.seen folder globs
    let now := time? watched.tree folder globs
    ∃ found, polled.2 = .ok found ∧ Reports before now found ∧
      (watched.reports ++ found).foldl applyReport {file | time? tree folder globs file ≠ none} =
        {file | now file ≠ none} ∧
      ((∀ file, before file = now file) → found = []) ∧
      (∃ (listed : List RawText) (calls : List ((RawText × ChangeKind) × Fin listeners.length)),
        watched.tree.list folder globs = .ok listed ∧
        (∀ n : Fin listeners.length, (calls.filter fun call => call.2 = n).map Prod.fst = found) ∧
        polled.1 = calls.foldl (fun session call => (session.tell source moment.clock call.1 (listeners.get call.2)).1)
          (watched.session.look source listed)) ∧
      polled.1.notes = watched.session.notes ++ found.flatMap fun change =>
        (listeners.filter fun other => other = .notes).map fun _ => change := by
  intro globs watched source listeners polled before now
  have hsound : watched.Sound folder globs tree := (Watched.sound_start hfirst hlisten).takeAll turns
  obtain ⟨found, listed, hlisted, hreports, hpoll⟩ := hsound.poll moment
  have hpolled : polled = _ := hpoll
  refine ⟨found, congrArg Prod.snd hpolled, hreports, ?_, hreports.eq_nil, ?_, ?_⟩
  · rw [List.foldl_append, hsound.reports_eq, hreports.foldl_applyReport]
  · obtain ⟨calls, hcalls, hsame⟩ := exists_calls found listeners
    refine ⟨listed, calls, hlisted, hcalls, ?_⟩
    rw [hpolled, hsame, List.foldl_map]
  · have hcalls (change : RawText × ChangeKind) :
        ((listeners.map fun other => (change, other)).filter fun call => call.2 = .notes).map Prod.fst =
          (listeners.filter fun other => other = .notes).map fun _ => change := by
      rw [List.filter_map, List.map_map]
      rfl
    rw [hpolled, notes_foldl_tell, notes_look, List.filter_flatMap, List.map_flatMap]
    simp only [hcalls, listeners]

/-- A file is edited, then missing, and there again at the end, with the time at which it was seen last. Two take notes,
one of them from the beginning. -/
theorem polls_report_each_change_once_vanished :
    let folder := Path.ofText "p"
    let session := blank { Settings.default with factoryPaths := ["*.rb"] }
    let source := (oneFile 117 900000000).source folder
    ∃ earlier later : Moment,
      let watched := (Watched.start folder (oneFile 117 900000000) .notes session).takeAll folder
        [.files (oneFile 118 1000000125), .poll earlier, .listen .notes, .files {}, .files (oneFile 117 950000000),
          .poll earlier, .files {}]
      let polled := watched.session.poll (watched.tree.source folder) later.clock
      session.watch.listeners = [] ∧ (session.listen source .notes).2 = .ok () ∧
        watched.reports = [(.plain "a.rb", .changed)] ∧ polled.2 = .ok [("a.rb", .deleted)] ∧
        Reports (time? watched.seen folder ["*.rb"]) (time? watched.tree folder ["*.rb"]) [("a.rb", .deleted)] ∧
        ((watched.reports ++ [(RawText.plain "a.rb", ChangeKind.deleted)]).foldl applyReport
            {file | time? (oneFile 117 900000000) folder ["*.rb"] file ≠ none} =
          {file | time? {} folder ["*.rb"] file ≠ none}) ∧
        polled.1.notes = [(.plain "a.rb", .changed), (.plain "a.rb", .deleted), (.plain "a.rb", .deleted)] := by
  intro folder session source
  let earlier : Moment := ⟨⟨reading 1000, reading 1000001000⟩, by decide +kernel, by decide +kernel⟩
  let later : Moment := ⟨⟨reading 2000, reading 1000002000⟩, by decide +kernel, by decide +kernel⟩
  refine ⟨earlier, later, ?_⟩
  intro watched polled
  have hlisten : (session.listen source .notes).2 = .ok () := eq_ok_of_toOption (by decide +kernel)
  have hpolled : polled.2 = .ok [("a.rb", .deleted)] := eq_ok_of_toOption (by decide +kernel)
  obtain ⟨found, hfound, hreports, hfiles, -, -, hnotes⟩ :=
    @polls_report_each_change_once folder (oneFile 117 900000000) session .notes rfl hlisten
      [.files (oneFile 118 1000000125), .poll earlier, .listen .notes, .files {}, .files (oneFile 117 950000000),
        .poll earlier, .files {}] later
  obtain rfl : [(.plain "a.rb", .deleted)] = found := Except.ok.inj (hpolled.symm.trans hfound)
  have hnoted : polled.1.notes = [(.plain "a.rb", .changed), (.plain "a.rb", .deleted), (.plain "a.rb", .deleted)] := by
    dsimp only [polled, watched]
    rw [hnotes]
    decide +kernel
  exact ⟨rfl, hlisten, by decide +kernel, hpolled, hreports, hfiles, hnoted⟩

end Session

end FactoryIndex
