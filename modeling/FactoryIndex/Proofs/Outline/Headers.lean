import FactoryIndex.Proofs.Outline.Order
import FactoryIndex.Proofs.Pattern.Parent

/-!
# One factory per header

A text should define one factory for each place that reads like a factory header, and a header should take its parent
from what is written between its name and the block it opens. But a header is searched for a parent up to the end of its
line, past the `do` or the brace that opens its block and past other headers, and where it finds one, all headers on the
way are lost. This is the only way to lose a header, and the only way to get a parent from somewhere else: all is well
exactly for those texts in which the first parent in reach of each header is its own.
-/

namespace FactoryIndex

open Pattern Text

theorem Location.LiesAt.offset_eq {location : Location} {text : List Char} {a b m n : Nat}
    (h : location.LiesAt text a m) (h' : location.LiesAt text b n) : a = b := by
  obtain ⟨i, hi, column, -, hline, hcolumn, rfl⟩ := h.place
  obtain ⟨j, hj, column', -, hline', hcolumn', rfl⟩ := h'.place
  obtain rfl : i = j := by omega
  obtain rfl : column = column' := by
    have heq := Option.some.inj (hcolumn.symm.trans hcolumn')
    omega
  rfl

namespace Outline

/-- Between two places of a masked text no `do` or brace opens a block, and no factory header starts. -/
structure Undivided (masked : List Char) (start stop : Nat) : Prop where
  token : ∀ found ∈ blockTokens masked, found.parts.token = .openDo ∨ found.parts.token = .openBrace →
    ¬(start ≤ found.start ∧ found.start < stop)
  header : ∀ header, Occurs plainHeader? 0 none masked header → ¬(start ≤ header.start ∧ header.start < stop)

/-- The first parent in reach of each header is its own: nothing that opens a block and no other header comes before it,
nor is its name the keyword of a header. -/
def OwnParents (masked : List Char) : Prop :=
  ∀ header ∈ plainHeaders masked, ∀ first,
    FirstParent (masked.take header.stop).getLast? (masked.drop header.stop) first →
      Undivided masked header.stop (header.stop + first.start) ∧
        ∀ other, Occurs plainHeader? 0 none masked other → other.start ≠ header.stop + first.start

/-- Whether all parents are the headers' own can be found out by searching for them. -/
theorem ownParents_iff {masked : List Char} : OwnParents masked ↔
    ∀ header ∈ plainHeaders masked,
      ∀ first ∈ parentIn? 0 false (masked.take header.stop).getLast? (masked.drop header.stop),
        (∀ found ∈ blockTokens masked, found.parts.token = .openDo ∨ found.parts.token = .openBrace →
          ¬(header.stop ≤ found.start ∧ found.start < header.stop + first.start)) ∧
        ∀ i < masked.length, header.stop ≤ i → i ≤ header.stop + first.start →
          plainHeader? (masked.take i).getLast? (masked.drop i) = none := by
  refine forall₂_congr fun header _ => forall_congr' fun first => ?_
  have hsearch : first ∈ parentIn? 0 false (masked.take header.stop).getLast? (masked.drop header.stop) ↔
      FirstParent (masked.take header.stop).getLast? (masked.drop header.stop) first := by
    rw [Option.mem_def, parentIn?_eq_some_iff]
    simp only [Symbol.shift_zero, exists_eq_right']
  rw [hsearch]
  refine imp_congr_right fun _ => ⟨fun ⟨hundivided, hkeyword⟩ => ⟨hundivided.token, fun i hi hle hge => ?_⟩,
    fun ⟨htoken, hnone⟩ => ⟨⟨htoken, fun other hother hbetween => ?_⟩, fun other hother hstart => ?_⟩⟩
  · cases hsome : plainHeader? (masked.take i).getLast? (masked.drop i) with
    | none => rfl
    | some hit =>
        have hoccurs : Occurs plainHeader? 0 none masked ⟨i, hit.length, hit.parts⟩ := occurs_iff.2 ⟨hi, hsome⟩
        rcases Nat.lt_or_eq_of_le hge with hlt | heq
        · exact absurd ⟨hle, hlt⟩ (hundivided.header _ hoccurs)
        · exact absurd heq (hkeyword _ hoccurs)
  · obtain ⟨hlt, hsome⟩ := occurs_iff.1 hother
    rw [hnone _ hlt hbetween.1 (Nat.le_of_lt hbetween.2)] at hsome
    cases hsome
  · obtain ⟨hlt, hsome⟩ := occurs_iff.1 hother
    rw [hnone _ hlt (by omega) (by omega)] at hsome
    cases hsome

instance (masked : List Char) : Decidable (OwnParents masked) := decidable_of_iff' _ ownParents_iff

section Scans

variable {masked : List Char} {found : Found FactoryHeader}

theorem stop_eq_of_parent (hmem : found ∈ factoryHeaders masked) {first : Symbol}
    (hparent : found.parts.parent = some (first.shift found.plain.length)) :
    found.stop = found.plain.stop + first.stop := by
  rw [(occurs_of_mem_occurrences hmem).stop_eq, hparent]
  simp only [Option.getD_some, Symbol.shift, Symbol.stop, Found.plain, Found.stop]
  omega

/-- A header reaches beyond its name only if it has a parent, with whose name it ends. -/
theorem plain_stop_le (hmem : found ∈ factoryHeaders masked) : found.plain.stop ≤ found.stop ∧
    (found.plain.stop < found.stop →
      ∃ first, FirstParent (masked.take found.plain.stop).getLast? (masked.drop found.plain.stop) first ∧
        found.stop = found.plain.stop + first.stop) := by
  have hoccurs := occurs_of_mem_occurrences hmem
  cases hparent : found.parts.parent with
  | none =>
      have hstop := hoccurs.stop_eq
      rw [hparent] at hstop
      have hplain : found.stop = found.plain.stop := hstop
      omega
  | some parent =>
      obtain ⟨first, hfirst, rfl⟩ := hoccurs.parent_eq_some_iff.1 hparent
      have hstop := stop_eq_of_parent hmem hparent
      exact ⟨by omega, fun _ => ⟨first, hfirst, hstop⟩⟩

theorem start_lt_plain_stop (hmem : found ∈ factoryHeaders masked) : found.start < found.plain.stop := by
  obtain ⟨_, _, _, -, -, -, hstart, -⟩ := written_of_mem_factoryHeaders hmem
  simp only [Found.plain, Found.stop, Symbol.stop, hstart]
  omega

theorem OwnParents.le_start (h : OwnParents masked) (hmem : found ∈ factoryHeaders masked)
    (hplain : found.plain ∈ plainHeaders masked) {header : Found Symbol} (hheader : header ∈ plainHeaders masked)
    (hlt : found.start < header.start) : found.stop ≤ header.start := by
  have hoccurs := occurs_of_mem_occurrences hheader
  have hbehind : found.plain.stop ≤ header.start := stop_le_start_of_mem hplain hheader hlt
  apply Nat.le_of_not_lt
  intro hinside
  obtain ⟨first, hfirst, hstop⟩ := (plain_stop_le hmem).2 (by omega)
  obtain ⟨hundivided, hkeyword⟩ := h found.plain hplain first hfirst
  have hgap := hundivided.header header hoccurs
  have hne := hkeyword header hoccurs
  have hle : found.plain.stop ≤ masked.length := by
    have hstart := hoccurs.start_lt
    omega
  have hname := hfirst.not_inside hle hoccurs
  omega

/-- Headers with and without their parents are found at the same places if all parents are the headers' own. -/
theorem OwnParents.mem_iff (h : OwnParents masked) (n : Nat) :
    (∀ found ∈ factoryHeaders masked, found.start = n → found.plain ∈ plainHeaders masked) ∧
      ∀ header ∈ plainHeaders masked, header.start = n → ∃ found ∈ factoryHeaders masked, found.plain = header := by
  induction n using Nat.strongRecOn with
  | ind n ih =>
      constructor
      · rintro found hmem rfl
        have hoccurs := (occurs_of_mem_occurrences hmem).plain
        rcases hoccurs.mem_or_covered with hplain | ⟨other, hother, hlt, hinside⟩
        · exact hplain
        · obtain ⟨cover, hcover, rfl⟩ := (ih other.start hlt).2 other hother rfl
          have hstop := stop_le_start_of_mem hcover hmem hlt
          have hle := (plain_stop_le hcover).1
          have hstart : found.plain.start = found.start := rfl
          omega
      · rintro header hmem rfl
        obtain ⟨found, hoccurs, rfl⟩ := (occurs_of_mem_occurrences hmem).exists_header
        rcases hoccurs.mem_or_covered with hfound | ⟨cover, hcover, hlt, hinside⟩
        · exact ⟨found, hfound, rfl⟩
        · have hplain := (ih cover.start hlt).1 cover hcover rfl
          have hstop := h.le_start hcover hplain hmem hlt
          have hstart : found.plain.start = found.start := rfl
          omega

theorem OwnParents.map_plain (h : OwnParents masked) :
    (factoryHeaders masked).map Found.plain = plainHeaders masked := by
  have hheaders : ((factoryHeaders masked).map Found.plain).Pairwise fun a b => a.start < b.start :=
    List.pairwise_map.2 ((pairwise_occurrences factoryHeader? masked).imp And.left)
  have hplains : (plainHeaders masked).Pairwise fun a b => a.start < b.start :=
    (pairwise_occurrences plainHeader? masked).imp And.left
  refine eq_of_mem_iff_of_pairwise_key Found.start hheaders hplains fun header => ⟨fun hmem => ?_, fun hmem => ?_⟩
  · obtain ⟨found, hfound, rfl⟩ := List.mem_map.1 hmem
    exact (h.mem_iff found.start).1 found hfound rfl
  · exact List.mem_map.2 ((h.mem_iff header.start).2 header hmem rfl)

theorem plain_stop_add (found : Found FactoryHeader) (first : Symbol) :
    found.plain.stop + first.start = found.start + (first.shift found.plain.length).start := Nat.add_assoc ..

theorem undivided_of_parent (h : OwnParents masked) (hmem : found ∈ factoryHeaders masked) {parent : Symbol}
    (hparent : found.parts.parent = some parent) :
    Undivided masked (found.start + found.parts.name.stop) (found.start + parent.start) := by
  obtain ⟨first, hfirst, rfl⟩ := (occurs_of_mem_occurrences hmem).parent_eq_some_iff.1 hparent
  have hundivided := (h found.plain (h.map_plain ▸ List.mem_map_of_mem hmem) first hfirst).1
  rwa [plain_stop_add] at hundivided

/-- Of the headers behind one that the scan has found, it finds the first. -/
theorem Undivided.mem_plainHeaders {header other : Found Symbol} (h : Undivided masked header.stop other.start)
    (hheader : header ∈ plainHeaders masked) (hother : Occurs plainHeader? 0 none masked other)
    (hbehind : header.stop ≤ other.start) : other ∈ plainHeaders masked := by
  have hlength : header.start ≤ header.stop := Nat.le_add_right ..
  rcases hother.mem_or_covered with hmem | ⟨cover, hcover, hbefore, hinside⟩
  · exact hmem
  · rcases Nat.lt_trichotomy cover.start header.start with hleft | heq | hright
    · have hle := stop_le_start_of_mem hcover hheader hleft
      omega
    · obtain rfl := (occurs_of_mem_occurrences hcover).eq_of_start_eq (occurs_of_mem_occurrences hheader) heq
      omega
    · have hle := stop_le_start_of_mem hheader hcover hright
      exact absurd ⟨hle, hbefore⟩ (h.header cover (occurs_of_mem_occurrences hcover))

/-- Conversely, if no header is lost and no parent comes from behind a header, all parents are the headers' own. -/
theorem ownParents_of_map_plain (hplains : (factoryHeaders masked).map Found.plain = plainHeaders masked)
    (hparents : ∀ found ∈ factoryHeaders masked, ∀ parent, found.parts.parent = some parent →
      Undivided masked (found.start + found.parts.name.stop) (found.start + parent.start)) : OwnParents masked := by
  intro header hheader first hfirst
  rw [← hplains] at hheader
  obtain ⟨found, hfound, rfl⟩ := List.mem_map.1 hheader
  have hoccurs := occurs_of_mem_occurrences hfound
  have hparent := hoccurs.parent_eq_some_iff.2 ⟨first, hfirst, rfl⟩
  have hundivided := hparents found hfound _ hparent
  rw [← plain_stop_add] at hundivided
  refine ⟨hundivided, fun other hother hstart => ?_⟩
  -- The scan finds a header there, and so does the scan with parents, but there is the header that has the parent.
  have hplain : found.plain ∈ plainHeaders masked := hplains ▸ List.mem_map_of_mem hfound
  have hmem : other ∈ plainHeaders masked := (hstart ▸ hundivided).mem_plainHeaders hplain hother (by omega)
  rw [← hplains] at hmem
  obtain ⟨inner, hinner, rfl⟩ := List.mem_map.1 hmem
  have hinside : inner.plain.start = inner.start := rfl
  have hlt := start_lt_plain_stop hfound
  have hle := stop_le_start_of_mem hfound hinner (by omega)
  have hstop := stop_eq_of_parent hfound hparent
  obtain ⟨-, -, -, -, hne, -⟩ := hfirst.exists_name
  have hpos := List.length_pos_iff.2 hne
  rw [Symbol.stop] at hstop
  omega

end Scans

/-! ### Factories and headers -/

/-- A name and a location are those of a header: the name stands there, and the location leads there. -/
def PlacedAt (text : List Char) (name : String) (location : Location) (header : Found Symbol) : Prop :=
  name = String.ofList header.parts.name ∧ location.LiesAt text header.start header.length

/-- A text has one factory per header, with its own parent. The factories are, in their order, those places of the
masked text that read like the start of a factory header; and between the name of a factory and the parent that its
header gives no block is opened and no other header starts. -/
structure OnePerHeader (mode : BlockMode) (text : List Char) (file : RawText) : Prop where
  headers : List.Forall₂ (fun factory header => PlacedAt text factory.name factory.location header)
    (parse mode text file).factories (plainHeaders (mask text))
  parents : ∀ factory ∈ (parse mode text file).factories, ∀ header, ReadFrom text factory header →
    ∀ parent, header.parts.parent = some parent →
      Undivided (mask text) (header.start + header.parts.name.stop) (header.start + parent.start)

theorem forall₂_factories (mode : BlockMode) (text : List Char) (file : RawText) (headers : List (Found Symbol)) :
    List.Forall₂ (fun factory header => PlacedAt text factory.name factory.location header)
      (parse mode text file).factories headers ↔
    List.Forall₂ (fun found header => PlacedAt text (String.ofList found.parts.name.name)
      (locate (LineIndex.ofText text) file found.start found.parts.name.stop) header)
      (factoryHeaders (mask text)) headers := by
  have hviews := List.forall₂_map_left_iff
    (R := fun (view : String × Location) (header : Found Symbol) => PlacedAt text view.1 view.2 header)
    (f := fun factory : Factory => (factory.name, factory.location)) (l := (parse mode text file).factories)
    (u := headers)
  rw [map_parse (fun _ _ => rfl)] at hviews
  exact hviews.symm.trans List.forall₂_map_left_iff

/-- The factories lie at the given places if and only if their headers, up to the names, are these places. -/
theorem forall₂_factories_iff (mode : BlockMode) (text : List Char) (file : RawText) :
    List.Forall₂ (fun factory header => PlacedAt text factory.name factory.location header)
      (parse mode text file).factories (plainHeaders (mask text)) ↔
    (factoryHeaders (mask text)).map Found.plain = plainHeaders (mask text) := by
  have hlies : ∀ found ∈ factoryHeaders (mask text), (locate (LineIndex.ofText text) file found.start
      found.parts.name.stop).LiesAt text found.plain.start found.plain.length := fun found hmem =>
    liesAt_locate (Nat.le_of_lt (start_lt_of_mem_headers hmem)) file _
  rw [forall₂_factories]
  constructor
  · intro h
    obtain ⟨hlength, hget⟩ := List.forall₂_iff_get.1 h
    refine List.ext_get (by rw [List.length_map, hlength]) fun i hi hi' => ?_
    rw [List.length_map] at hi
    have hfound := List.get_mem (factoryHeaders (mask text)) ⟨i, hi⟩
    have hheader := List.get_mem (plainHeaders (mask text)) ⟨i, hi'⟩
    rw [List.get_eq_getElem, List.getElem_map]
    refine (occurs_of_mem_occurrences hfound).plain.eq_of_start_eq (occurs_of_mem_occurrences hheader) ?_
    exact (hlies _ hfound).offset_eq (hget i hi hi').2
  · intro h
    rw [← h, List.forall₂_map_right_iff, List.forall₂_same]
    exact fun found hmem => ⟨rfl, hlies found hmem⟩

/-- **One factory per header.** A text has one factory per header, with its own parent, if and only if the first parent
in reach of each header is its own. -/
theorem one_factory_per_header (mode : BlockMode) (text : List Char) (file : RawText) :
    OnePerHeader mode text file ↔ OwnParents (mask text) := by
  constructor
  · intro h
    have hplains := (forall₂_factories_iff mode text file).1 h.headers
    refine ownParents_of_map_plain hplains fun found hmem parent hparent => ?_
    obtain ⟨factory, hfactory, heq⟩ :=
      exists_mem_parse (fun factory => (factory.name, factory.location)) (fun _ _ => rfl) mode file hmem
    obtain ⟨hname, hlocation⟩ := Prod.mk.inj heq
    have hplace : factory.location.LiesAt text found.start found.parts.name.stop :=
      hlocation ▸ liesAt_locate (Nat.le_of_lt (start_lt_of_mem_headers hmem)) file _
    exact h.parents factory hfactory found ⟨hmem, hname, hplace⟩ parent hparent
  · intro h
    refine ⟨(forall₂_factories_iff mode text file).2 h.map_plain, fun _ _ header hread parent hparent => ?_⟩
    exact undivided_of_parent h hread.mem hparent

-- Nested factories with parents of their own, on lines of their own.
example : OwnParents (mask
    "factory :a,\n  parent: :b do\n  factory :c do\n    factory :d, parent: :a do\n    end\n  end\nend".toList) := by
  decide +kernel

/-- A header on the line of another one is lost, and the other one gets its parent. -/
theorem header_on_line_lost :
    ¬OnePerHeader .scanner "factory :a do; factory :b, parent: :c do; end; end".toList "users.rb" := by
  intro h
  have hlength := h.headers.length_eq
  revert hlength
  decide +kernel

end Outline

end FactoryIndex
