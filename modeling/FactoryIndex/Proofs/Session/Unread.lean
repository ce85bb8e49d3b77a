import FactoryIndex.Proofs.Session.Reported

/-!
# A change whose file cannot be read

A file that has a time but cannot be read is taken for an empty one. All that came from it is gone, and its entry bears
the time of a text that nobody has seen. Once the file can be read, a change is followed only if the file has a later
time by then: at the time of the read that failed, the text stays out of the index. A read that fails in any other way
gives the change up. That leaves no trace, so the next change is followed at the same time already.

Between the two changes the session may do anything that leaves the time of the entry as it is, since nothing else
decides whether a file is looked at again.
-/

namespace FactoryIndex

namespace Store

/-! ### What a store holds of one file -/

section Kinds

variable {α : Type} (kind : Kind α) {file : RawText} {now : Int} {values : List α}

def Kind.heldFrom (file : RawText) (store : Store) (key : String) : Option α :=
  (kind.stored store key).filter fun value => decide (kind.fileOf value = file)

/-- Of the definitions that are put in place of what came from their file, the last one of each key is held. -/
theorem heldFrom_of_exchange {before after : Store} (hfile : ∀ value ∈ values, kind.fileOf value = file)
    (hmap : kind.map after = kind.exchange file now values (kind.map before)) (key : String) :
    kind.heldFrom file after key = values.findRev? fun value => kind.keyOf value = key := by
  unfold Kind.heldFrom Kind.stored
  rw [hmap, ExpiringMap.peek?]
  by_cases hkey : key ∈ values.map kind.keyOf
  · obtain ⟨last, hmem, -, hlast⟩ := findRev?_of_mem_keys hkey
    have hfound : (kind.exchange file now values (kind.map before)).entries.get? key = some ⟨last, now⟩ := by
      rw [Kind.exchange, ExpiringMap.get?_putAll, hlast, Option.map_some, Option.some_or]
    rw [hfound, hlast, Option.map_some, Option.filter_some, if_pos (decide_eq_true (hfile last hmem))]
  · rw [get?_exchange_of_not_mem hkey, findRev?_of_not_mem_keys hkey, Option.filter_map, Option.filter_filter]
    simp

end Kinds

/-- Of one file a store holds what an outline defines, the last definition of each key, and the entry of the file
notes that. -/
structure HoldsOf (store : Store) (file : RawText) (outline : Outline) : Prop where
  factories : ∀ name, Kind.factory.heldFrom file store name =
    outline.factories.findRev? fun factory => factory.name = name
  traits : ∀ key, Kind.trait.heldFrom file store key = outline.traits.findRev? fun t => t.key = key
  noted_factories : ∀ name, Kind.factory.Noted store file name ↔ name ∈ outline.factories.map Factory.name
  noted_traits : ∀ key, Kind.trait.Noted store file key ↔ key ∈ outline.traits.map Trait.key

theorem Attributed.holdsOf_replaceFile {store : Store} {file : RawText} {outline : Outline} (h : store.Attributed)
    (clock : Clock) (hfactories : ∀ factory ∈ outline.factories, factory.location.file = file)
    (htraits : ∀ t ∈ outline.traits, t.location.file = file) (modified : Option Int) :
    (store.replaceFile clock file outline.factories outline.traits modified).HoldsOf file outline := by
  have hafter := h.replaceFile clock file outline.factories outline.traits modified
  obtain ⟨hmap, hmap'⟩ := maps_replaceFile h clock file outline.factories outline.traits modified
  exact ⟨heldFrom_of_exchange .factory hfactories hmap, heldFrom_of_exchange .trait htraits hmap',
    noted_iff_of_exchange hafter.factories hfactories hmap, noted_iff_of_exchange hafter.traits htraits hmap'⟩

end Store

namespace Session

variable {source : Source} {session : Session} {file : RawText} {kind : ChangeKind} {time : Int}

/-! ### Handling a change of a file that has a time -/

theorem Reachable.handleChange (source : Source) (moment : Moment) (file kind : Value) (h : session.Reachable) :
    (session.handleChange source moment.clock file kind).1.Reachable := by
  apply handleChange_induction (motive := Session.Reachable) (h.startChange source file kind)
  intro started name modified read hstarted
  exact hstarted.reindex moment name modified read

theorem handleChange_of_reading (hkind : kind ≠ .deleted) (hmodified : source.modified (.raw file) = .ok time)
    (hreindex : session.store.shouldReindex file time = true) (clock : Clock) :
    session.handleChange source clock (.raw file) (.text kind.name) =
      ((session.reindex clock file time ⟨file, source.delay file, source.read file⟩).1,
        (session.reindex clock file time ⟨file, source.delay file, source.read file⟩).2.map fun _ => true) := by
  simp only [handleChange, startChange_of_modified hkind hmodified, hreindex, if_true]

/-- What a read has ended in is put in place of what came from the file, and the entry gets the time of the file. -/
theorem reindex_of_ofRead {read : FileRead} {outline : Outline} {events : List Event} (h : session.store.Attributed)
    (hread : Outline.ofRead session.services.blockMode read = .ok (outline, events))
    (hfactories : ∀ factory ∈ outline.factories, factory.location.file = file)
    (htraits : ∀ t ∈ outline.traits, t.location.file = file) (moment : Moment) (time : Int) :
    (session.reindex moment.clock file time read).2 = .ok () ∧
      (session.reindex moment.clock file time read).1.store.modifiedOf file = some time ∧
      (session.reindex moment.clock file time read).1.store.HoldsOf file outline ∧
      (session.reindex moment.clock file time read).1.events =
        session.events ++ events ++ [fileReindexed file outline] := by
  simp only [reindex, hread, Store.Timed.replaceFile_of_readable moment.measures moment.tellsDay, store_notifyAll]
  refine ⟨trivial, ?_, h.holdsOf_replaceFile moment.clock hfactories htraits (some time), ?_⟩
  · exact (Store.modifiedOf_replaceFile h moment.clock hfactories htraits time file).trans (if_pos rfl)
  · simp only [notify, record, notifyAll_eq]

/-! ### Reading again after a read that failed -/

/-- A text that can be read is looked at if the time of the file is later than that of its entry. -/
theorem handleChange_of_read (hsession : session.Reachable) (hkind : kind ≠ .deleted)
    (hmodified : source.modified (.raw file) = .ok time) {text : List Char} (hread : source.read file = .ok text)
    (hreindex : session.store.shouldReindex file time = true) (moment : Moment) :
    let after := session.handleChange source moment.clock (.raw file) (.text kind.name)
    after.2 = .ok true ∧ after.1.store.modifiedOf file = some time ∧
      after.1.store.HoldsOf file (Outline.parse session.services.blockMode text file) := by
  intro after
  have hoftext : Outline.ofRead session.services.blockMode ⟨file, source.delay file, source.read file⟩ =
      .ok (Outline.parse session.services.blockMode text file, []) := by
    simp only [Outline.ofRead, hread]
  obtain ⟨houtcome, htime, hholds, -⟩ := reindex_of_ofRead (attributed_of_reachable hsession) hoftext
    (fun _ hmem => Outline.file_of_mem_factories_parse hmem) (fun _ hmem => Outline.file_of_mem_traits_parse hmem)
    moment time
  simp only [after, handleChange_of_reading hkind hmodified hreindex, houtcome]
  exact ⟨rfl, htime, hholds⟩

/-- **A change whose file could not be read is made good once the file has a later time**, and no sooner. Take any
state of a session and a change of a file that has a time and is to be looked at, but cannot be read. If the failure is
one of files, the change counts as followed: nothing of the file is held any more, and its entry bears the time. Any
other failure is passed on, and nothing has happened. In any later state whose entry of the file bears the same time, let
there be a change of the file, which can be read now. After a failure of files it is followed if the time of the file is
later than it was, and else nothing happens. After any other failure the same time is late enough. To be followed means
that just what the text defines is held of the file. -/
theorem read_again_after_failure (hsession : session.Reachable) (hkind : kind ≠ .deleted)
    (hmodified : source.modified (.raw file) = .ok time) (hreindex : session.store.shouldReindex file time = true)
    {failure : Failure} (hread : source.read file = .error failure) (moment : Moment) :
    let failed := session.handleChange source moment.clock (.raw file) (.text kind.name)
    (failure.kind.isUnreadable = true → failed.2 = .ok true ∧ failed.1.store.modifiedOf file = some time ∧
      failed.1.store.HoldsOf file {} ∧
      failed.1.events = session.events ++ [Outline.readFailure file failure, fileReindexed file {}]) ∧
    (failure.kind.isUnreadable = false → failed = (session, .error failure)) ∧
    ∀ later : Session, later.Reachable → later.store.modifiedOf file = failed.1.store.modifiedOf file →
      ∀ (source' : Source) (moment' : Moment) (kind' : ChangeKind) (again : Int) (text : List Char),
        kind' ≠ .deleted → source'.modified (.raw file) = .ok again → source'.read file = .ok text →
        let retried := later.handleChange source' moment'.clock (.raw file) (.text kind'.name)
        (failure.kind.isUnreadable = true → again ≤ time → retried = (later, .ok false)) ∧
        ((failure.kind.isUnreadable = true → time < again) → time ≤ again →
          retried.2 = .ok true ∧ retried.1.store.modifiedOf file = some again ∧
            retried.1.store.HoldsOf file (Outline.parse later.services.blockMode text file)) := by
  intro failed
  have hfailed : failed = ((session.reindex moment.clock file time ⟨file, source.delay file, .error failure⟩).1,
      (session.reindex moment.clock file time ⟨file, source.delay file, .error failure⟩).2.map fun _ => true) := by
    rw [← hread]
    exact handleChange_of_reading hkind hmodified hreindex moment.clock
  cases hunreadable : failure.kind.isUnreadable with
  | true =>
      have hempty : Outline.ofRead session.services.blockMode ⟨file, source.delay file, .error failure⟩ =
          .ok ({}, [Outline.readFailure file failure]) := by
        simp only [Outline.ofRead, hunreadable, if_true]
      obtain ⟨houtcome, htime, hholds, hevents⟩ := reindex_of_ofRead (attributed_of_reachable hsession) hempty
        (List.forall_mem_nil _) (List.forall_mem_nil _) moment time
      rw [houtcome] at hfailed
      rw [List.append_assoc] at hevents
      refine ⟨fun _ => ?_, fun h => Bool.noConfusion h, ?_⟩
      · rw [hfailed]
        exact ⟨rfl, htime, hholds, hevents⟩
      · intro later hlater hentry source' moment' kind' again text hkind' hmodified' hread' retried
        rw [hfailed, htime] at hentry
        refine ⟨fun _ hle => ?_, fun hlt _ => ?_⟩
        · apply handleChange_settled hkind' hmodified'
          rw [Store.shouldReindex_eq, hentry, Option.all_some, decide_eq_false (by omega)]
        · apply handleChange_of_read hlater hkind' hmodified' hread'
          rw [Store.shouldReindex_eq, hentry, Option.all_some, decide_eq_true (hlt rfl)]
  | false =>
      have hgiven : failed = (session, .error failure) := by
        rw [hfailed]
        simp only [reindex, Outline.ofRead, hunreadable, Bool.false_eq_true, if_false, Except.map]
      refine ⟨fun h => Bool.noConfusion h, fun _ => hgiven, ?_⟩
      intro later hlater hentry source' moment' kind' again text hkind' hmodified' hread' retried
      rw [hgiven] at hentry
      refine ⟨fun h => Bool.noConfusion h, fun _ hle => ?_⟩
      apply handleChange_of_read hlater hkind' hmodified' hread'
      rw [Store.shouldReindex_eq] at hreindex ⊢
      rw [hentry]
      cases hstamp : session.store.modifiedOf file with
      | none => rfl
      | some stamp =>
          rw [hstamp, Option.all_some, decide_eq_true_iff] at hreindex
          rw [Option.all_some, decide_eq_true (by omega)]

/-! ### A single file -/

/-- A source of one file, with its time in milliseconds and what a read of it ends in. -/
def single (time : Int) (outcome : Except Failure (List Char)) : Source where
  list _ := .ok ["a.rb"]
  modified _ := .ok (reading time)
  read _ := outcome

def indexedSingle (clock : Clock) : Session :=
  let settings := { Settings.default with priorityOrder := [], blockMode := .regex }
  ((blank settings).index (single 900000000 (.ok "factory :u do".toList)) clock false).1

theorem reachable_indexedSingle (moment : Moment) : (indexedSingle moment.clock).Reachable := by
  refine .index _ moment false (.start (create_eq_blank ?_))
  decide +kernel

/-- A file is edited, cannot be read, and is edited once more. -/
theorem read_again_after_failure_edited :
    let denied : Failure := .reported .permission "denied"
    let session := indexedSingle ⟨reading 0, reading 1000000000⟩
    let failed := session.handleChange (single 1000000125 (.error denied)) ⟨reading 1000, reading 1000001000⟩
      (.text "a.rb") (.text "changed")
    let retried := failed.1.handleChange (single 1000000250 (.ok "factory :v do".toList))
      ⟨reading 2000, reading 1000002000⟩ (.text "a.rb") (.text "changed")
    session.store.shouldReindex "a.rb" (reading 1000000125) = true ∧ failed.2 = .ok true ∧
      failed.1.store.HoldsOf "a.rb" {} ∧ retried.2 = .ok true ∧ ∀ name, Store.Kind.factory.Noted retried.1.store "a.rb" name ↔ name ∈ ["v"] := by
  intro denied session failed retried
  let first : Moment := ⟨⟨reading 0, reading 1000000000⟩, by decide +kernel, by decide +kernel⟩
  let second : Moment := ⟨⟨reading 1000, reading 1000001000⟩, by decide +kernel, by decide +kernel⟩
  let third : Moment := ⟨⟨reading 2000, reading 1000002000⟩, by decide +kernel, by decide +kernel⟩
  have hreindex : session.store.shouldReindex "a.rb" (reading 1000000125) = true := by decide +kernel
  have hchanged : ChangeKind.changed ≠ .deleted := by decide
  have hmodified : (single 1000000125 (.error denied)).modified (.text "a.rb") = .ok (reading 1000000125) := rfl
  have hread : (single 1000000125 (.error denied)).read "a.rb" = .error denied := rfl
  obtain ⟨hunreadable, -, hlater⟩ :=
    read_again_after_failure (reachable_indexedSingle first) hchanged hmodified hreindex hread second
  obtain ⟨houtcome, -, hempty, -⟩ := hunreadable rfl
  obtain ⟨-, hagain⟩ := hlater failed.1 ((reachable_indexedSingle first).handleChange _ second _ _) rfl
    (single 1000000250 (.ok "factory :v do".toList)) third .changed (reading 1000000250) _ hchanged rfl rfl
  obtain ⟨hretried, -, hholds⟩ := hagain (fun _ => by decide +kernel) (by decide +kernel)
  have hparse : (Outline.parse failed.1.services.blockMode "factory :v do".toList "a.rb").factories.map Factory.name =
      ["v"] := by decide +kernel
  refine ⟨hreindex, houtcome, hempty, hretried, fun name => ?_⟩
  rw [← hparse]
  exact hholds.noted_factories name

/-- A file is edited and cannot be read, and then it can be read, at the time of that edit. Its text is not looked
at. -/
theorem unread_change_skipped :
    let denied : Failure := .reported .permission "denied"
    let healed := single 1000000125 (.ok "factory :v do".toList)
    ∃ first second third : Moment,
      let session := indexedSingle first.clock
      let failed := session.handleChange (single 1000000125 (.error denied)) second.clock (.text "a.rb")
        (.text "changed")
      let retried := failed.1.handleChange healed third.clock (.text "a.rb") (.text "changed")
      session.Reachable ∧ session.store.initialized = true ∧ session.store.files.keys = [.plain "a.rb"] ∧
        session.store.expiredCount third.clock = 0 ∧ failed.2 = .ok true ∧
        (Outline.parse session.services.blockMode "factory :v do".toList "a.rb").factories.map Factory.name = ["v"] ∧
        retried.2 = .ok false ∧
        (retried.1.store.files.get? "a.rb").map (fun entry => entry.factories.names) = some [] := by
  let first : Moment := ⟨⟨reading 0, reading 1000000000⟩, by decide +kernel, by decide +kernel⟩
  let second : Moment := ⟨⟨reading 1000, reading 1000001000⟩, by decide +kernel, by decide +kernel⟩
  let third : Moment := ⟨⟨reading 2000, reading 1000002000⟩, by decide +kernel, by decide +kernel⟩
  refine ⟨first, second, third, reachable_indexedSingle first, ?_, ?_, ?_, eq_ok_of_toOption ?_, ?_,
    eq_ok_of_toOption ?_, ?_⟩
  all_goals decide +kernel

end Session

end FactoryIndex
