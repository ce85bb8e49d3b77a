import FactoryIndex.Proofs.Outline.Completion
import FactoryIndex.Settings

/-!
# Files of a batch do not affect each other

A batch is cut into groups, and the reads of one group complete in whatever order they please. Whatever they end in,
the outline of the batch is that of one file after another in that order, each file with what its own text defines.
A read that fails leaves one warning behind and nothing else: the outline is the one that the other reads have
without it.

How many files make a group is for any value to say that stands for a whole number, and it is bounded on both sides.
-/

namespace FactoryIndex

/-! ### What a read comes to -/

namespace FileRead

def failed (read : FileRead) : Bool :=
  match read.outcome with
  | .ok _ => false
  | .error _ => true

/-- What a read adds to an outline: the definitions of its text, if it has one. -/
def contribution (mode : BlockMode) (read : FileRead) : Outline :=
  match read.outcome with
  | .ok text => .parse mode text read.file
  | .error _ => {}

/-- An event warns that a read has failed. It tells failures to reach or to decode a file from all others. -/
def WarnedBy (read : FileRead) (event : Event) : Prop :=
  ∃ failure, read.outcome = .error failure ∧ event.level = .warning ∧ event.error = some failure ∧
    event.details = ([("file", .raw read.file)] : Fields) ∧
    event.context = if failure.kind.isSystem ∨ failure.kind = .undecodable then "extractor.read_failure"
      else "extractor.batch_item_failure"

end FileRead

namespace Outline

variable {read : FileRead}

theorem isolated_of_not_failed (mode : BlockMode) (h : read.failed = false) :
    isolated mode read = (read.contribution mode, []) := by
  unfold FileRead.failed at h
  unfold isolated ofRead FileRead.contribution
  cases houtcome : read.outcome with
  | ok text => rfl
  | error failure =>
      rw [houtcome] at h
      cases h

theorem isolated_of_failed (mode : BlockMode) (h : read.failed = true) :
    ∃ event, isolated mode read = ({}, [event]) ∧ read.WarnedBy event := by
  unfold FileRead.failed at h
  unfold isolated ofRead
  cases houtcome : read.outcome with
  | ok text =>
      rw [houtcome] at h
      cases h
  | error failure =>
      cases hkind : failure.kind.isUnreadable with
      | true =>
          refine ⟨readFailure read.file failure, by simp [hkind], failure, houtcome, rfl, rfl, rfl, ?_⟩
          have hreached : failure.kind.isSystem = true ∨ failure.kind = .undecodable := by
            simpa [FailureKind.isUnreadable] using hkind
          rw [if_pos hreached]
          rfl
      | false =>
          refine ⟨itemFailure read.file failure, by simp [hkind], failure, houtcome, rfl, rfl, rfl, ?_⟩
          have hother : ¬ (failure.kind.isSystem = true ∨ failure.kind = .undecodable) := by
            simpa [FailureKind.isUnreadable] using hkind
          rw [if_neg hother]
          rfl

/-! ### One read after the other -/

theorem append_empty_left (outline : Outline) : ({} : Outline) ++ outline = outline := rfl

theorem ofCompleted_cons (mode : BlockMode) (read : FileRead) (rest : List FileRead) :
    ofCompleted mode (read :: rest) =
      ((isolated mode read).1 ++ (ofCompleted mode rest).1, (isolated mode read).2 ++ (ofCompleted mode rest).2) := rfl

/-- Reads that fail may as well be left out. -/
theorem ofCompleted_filter (mode : BlockMode) (reads : List FileRead) :
    ofCompleted mode (reads.filter fun read => !read.failed) = ((ofCompleted mode reads).1, []) := by
  induction reads with
  | nil => rfl
  | cons read rest ih =>
      cases hfailed : read.failed with
      | true =>
          obtain ⟨event, hisolated, -⟩ := isolated_of_failed mode hfailed
          rw [List.filter_cons, hfailed, ofCompleted_cons, hisolated, append_empty_left]
          exact ih
      | false =>
          rw [List.filter_cons, hfailed, Bool.not_false, if_pos rfl, ofCompleted_cons, ofCompleted_cons, ih,
            isolated_of_not_failed mode hfailed]
          rfl

/-- Every read that fails is warned about once, in the order of completion. -/
theorem warned_ofCompleted (mode : BlockMode) (reads : List FileRead) :
    List.Forall₂ FileRead.WarnedBy (reads.filter FileRead.failed) (ofCompleted mode reads).2 := by
  induction reads with
  | nil => exact .nil
  | cons read rest ih =>
      cases hfailed : read.failed with
      | true =>
          obtain ⟨event, hisolated, hwarned⟩ := isolated_of_failed mode hfailed
          rw [List.filter_cons, hfailed, if_pos rfl, ofCompleted_cons, hisolated]
          exact .cons hwarned ih
      | false =>
          rw [List.filter_cons, hfailed, if_neg Bool.false_ne_true, ofCompleted_cons,
            isolated_of_not_failed mode hfailed]
          exact ih

/-! ### Groups -/

theorem getElem?_groups {α : Type} {size : Nat} (hsize : 0 < size) (items : List α) (i : Nat) :
    (groups size items)[i]? =
      if i * size < items.length then some ((items.drop (i * size)).take size) else none := by
  induction items using groups.induct size generalizing i with
  | case1 => simp [groups]
  | case2 item rest ih =>
      rw [groups]
      cases i with
      | zero =>
          obtain ⟨m, rfl⟩ := Nat.exists_eq_add_of_lt hsize
          simp
      | succ i =>
          have hstart : (i + 1) * size = (i * size + (size - 1)) + 1 := by
            rw [Nat.succ_mul]
            omega
          rw [List.getElem?_cons_succ, ih, List.length_drop, hstart, List.drop_succ_cons, List.drop_drop,
            List.length_cons, Nat.add_comm (size - 1)]
          congr 1
          apply propext
          omega

theorem clampBatch_eq (n : Int) : (Settings.clampBatch n : Int) = max 1 (min 50 n) := by
  unfold Settings.clampBatch Settings.maxBatchSize
  split
  · omega
  · split <;> omega

theorem isolated_fst (mode : BlockMode) (read : FileRead) : (isolated mode read).1 = read.contribution mode :=
  outline_isolated mode read

/-- **The files of a batch do not affect each other.** Take any value that stands for a whole number, any files and
whatever their reads end in, and any order of completion inside each group. The groups are consecutive pieces of the
bounded size, of which only the last one may be shorter. The outline is that of one file after another, group by group
and in the order of completion inside each, every file with the definitions of its own text or with nothing. Every
read that fails is warned about once; without these reads the outline is the same, and there is no warning. What
is read with different delays completes in one of these orders. -/
theorem batch_keeps_files_apart {value : Value} {n : Int} (hvalue : value.toInt = .ok n) (mode : BlockMode)
    (reads : List FileRead) {orders : List (List FileRead)}
    (horders : List.Forall₂ List.Perm (groups (Settings.clampBatch n) reads) orders) :
    let size := Settings.clampBatch n
    let (outline, events) := ofCompleted mode orders.flatten
    Settings.clampBatchSize value = .ok size ∧ (size : Int) = max 1 (min 50 n) ∧
      (∀ i, (groups size reads)[i]? =
        if i * size < reads.length then some ((reads.drop (i * size)).take size) else none) ∧
      orders.flatten.Perm reads ∧
      outline.factories =
        orders.flatMap (fun order => order.flatMap fun read => (read.contribution mode).factories) ∧
      outline.traits = orders.flatMap (fun order => order.flatMap fun read => (read.contribution mode).traits) ∧
      List.Forall₂ FileRead.WarnedBy (orders.flatten.filter FileRead.failed) events ∧
      ofCompleted mode (orders.flatten.filter fun read => !read.failed) = (outline, []) ∧
      ∃ orders', List.Forall₂ List.Perm (groups size reads) orders' ∧
        ofFiles mode size reads = ofCompleted mode orders'.flatten := by
  have hsize : 0 < Settings.clampBatch n := by
    have hclamp := clampBatch_eq n
    omega
  have hclamped : Settings.clampBatchSize value = .ok (Settings.clampBatch n) := by
    cases value with
    | null => cases hvalue
    | _ => simp only [Settings.clampBatchSize, hvalue]
  obtain ⟨orders', horders', hcompleted⟩ := completes_completed (Settings.clampBatch n) reads
  refine ⟨hclamped, clampBatch_eq n, getElem?_groups hsize reads, Completes.perm ⟨orders, horders, rfl⟩, ?_, ?_,
    warned_ofCompleted mode orders.flatten, ofCompleted_filter mode orders.flatten, orders', horders', ?_⟩
  · simp only [factories_ofCompleted, isolated_fst, List.flatten_eq_flatMap, List.flatMap_assoc, id_eq]
  · simp only [traits_ofCompleted, isolated_fst, List.flatten_eq_flatMap, List.flatMap_assoc, id_eq]
  · rw [ofFiles, hcompleted]

/-- Four reads in groups of two, of which three fail, each in a way of its own; one file is read twice. In each group
the second read completes first. -/
theorem batch_keeps_files_apart_repeated :
    let text := ['f', 'a', 'c', 't', 'o', 'r', 'y', ' ', ':', 'u', ' ', 'd', 'o']
    let first : FileRead := ⟨"a.rb", 0, .ok text⟩
    let missing : FileRead := ⟨"b.rb", 0, .error (.noSuchFile "b.rb")⟩
    let again : FileRead := ⟨"a.rb", 0, .error (.reported .undecodable "bad byte")⟩
    let broken : FileRead := ⟨"c.rb", 0, .error (.reported .runtime "no luck")⟩
    let orders := [[missing, first], [broken, again]]
    Value.toInt (.text " 2 ") = .ok 2 ∧
      List.Forall₂ List.Perm (groups (Settings.clampBatch 2) [first, missing, again, broken]) orders ∧
      (let (outline, events) := ofCompleted .regex orders.flatten
      outline.factories.map Factory.name = ["u"] ∧
        events.map Event.context =
          ["extractor.read_failure", "extractor.batch_item_failure", "extractor.read_failure"] ∧
        List.Forall₂ FileRead.WarnedBy [missing, broken, again] events ∧
        ofCompleted .regex [first] = (outline, [])) := by
  intro text first missing again broken orders
  have hvalue : Value.toInt (.text " 2 ") = .ok 2 := by decide +kernel
  have hgroups :
      groups (Settings.clampBatch 2) [first, missing, again, broken] = [[first, missing], [again, broken]] := by
    rw [show Settings.clampBatch 2 = 2 from rfl]
    simp [groups]
  have horders : List.Forall₂ List.Perm (groups (Settings.clampBatch 2) [first, missing, again, broken]) orders := by
    rw [hgroups]
    exact .cons (.swap ..) (.cons (.swap ..) .nil)
  obtain ⟨-, -, -, -, -, -, hwarned, hapart, -⟩ :=
    batch_keeps_files_apart hvalue .regex [first, missing, again, broken] horders
  exact ⟨hvalue, horders, by decide +kernel, by decide +kernel, hwarned, hapart⟩

end Outline

end FactoryIndex
