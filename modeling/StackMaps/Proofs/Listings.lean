import StackMaps.Convention.Targets
import StackMaps.Listing
import StackMaps.Proofs.Catalogs
import StackMaps.Proofs.Finishing
import StackMaps.Proofs.Reading
import StackMaps.Proofs.Spelling

/-!
# Listings of compiled methods

A listing is a first line and one line for each entry. It reads every entry of the
table and names every register that an entry marks. A table that a method packs is
whole and as wide as the target has registers, whatever the method holds, so the
listing completes with the lines that the entries should have.

Two listings under one name are the same only for the same method. The name is cut off
by its length, which is why it may contain anything, also lines of a listing. The rest of
the first line and every other line is then read field by field. The lines give the
marked slots and registers of every entry, and the first line gives what the lengths of
the bitmaps are computed from, so the packed bytes are known.
-/

namespace StackMaps

/-! ## Register names -/

namespace Catalog

/-- The name that is listed for a general-purpose register. -/
def generalName (catalog : Catalog) (code : Nat) : String :=
  ((catalog.names .general)[code]?).getD ""

/-- The register at a position of the general-purpose table is named by that position. -/
theorem name_general {catalog : Catalog} {code : Nat} {register : Register}
    (stored : (catalog.registers .general)[code]? = some register) :
    catalog.name register = .ok (catalog.generalName code) := by
  obtain ⟨inside, _⟩ := List.getElem?_eq_some_iff.mp stored
  obtain ⟨sameCode, sameBank⟩ := (catalog.dense .general).code_eq stored
  obtain ⟨number, bank⟩ := register
  obtain rfl : bank = .general := sameBank
  obtain rfl : number.toNat = code := sameCode
  have named : number.toNat < (catalog.names .general).length :=
    catalog.length_names .general ▸ inside
  refine name_eq_ok.mpr ⟨(contains_of_getElem? stored).1, ?_⟩
  rw [generalName, List.getElem?_eq_getElem named]
  rfl

end Catalog

namespace Architecture

variable {target : Architecture} {code : Nat}

/-- An encoding below the number of general-purpose registers is read back from the
listed name. -/
theorem idxOf_generalName (inside : code < target.catalog.referenceCount) :
    (target.catalog.names .general).idxOf (target.catalog.generalName code) = code := by
  have named : code < (target.catalog.names .general).length :=
    target.catalog.length_names .general ▸ inside
  rw [Catalog.generalName, List.getElem?_eq_getElem named, Option.getD_some]
  exact target.names_spelled.1.idxOf_getElem code named

/-- The listed name of a general-purpose register is a word. -/
theorem word_generalName (inside : code < target.catalog.referenceCount) :
    Text.Word (target.catalog.generalName code) := by
  have named : code < (target.catalog.names .general).length :=
    target.catalog.length_names .general ▸ inside
  rw [Catalog.generalName, List.getElem?_eq_getElem named, Option.getD_some]
  exact target.names_spelled.2 _ (List.getElem_mem named)

end Architecture

/-! ## Lines -/

/-- What the line of an entry shows. -/
@[ext] structure Row where
  pc : UInt32
  slots : List Nat
  codes : List Nat

namespace Row

/-- The line that shows a row. -/
def line (catalog : Catalog) (row : Row) : String :=
  "  " ++ Text.hexColumn row.pc.toNat ++ ": frame [" ++
    String.intercalate " " (row.slots.map toString) ++ "] regs [" ++
    String.intercalate " " (row.codes.map catalog.generalName) ++ "]\n"

/-- A row marks registers of the catalog only. -/
def Listed (catalog : Catalog) (row : Row) : Prop :=
  ∀ code ∈ row.codes, code < catalog.referenceCount

variable {target : Architecture}

/-- The slots of a row are written as words. -/
theorem words_slots (row : Row) : ∀ word ∈ row.slots.map toString, Text.Word word := by
  intro word member
  obtain ⟨slot, _, rfl⟩ := List.mem_map.mp member
  exact Text.word_decimal slot

/-- The registers of a row are written as words. -/
theorem Listed.words {row : Row} (listed : row.Listed target.catalog) :
    ∀ word ∈ row.codes.map target.catalog.generalName, Text.Word word := by
  intro word member
  obtain ⟨code, marked, rfl⟩ := List.mem_map.mp member
  exact Architecture.word_generalName (listed code marked)

/-- The registers of a row are read back from their names. -/
theorem Listed.codes_eq {row : Row} (listed : row.Listed target.catalog) :
    (row.codes.map target.catalog.generalName).map (target.catalog.names .general).idxOf =
      row.codes := by
  rw [List.map_map]
  refine (List.map_congr_left ?_).trans (List.map_id _)
  intro code marked
  exact Architecture.idxOf_generalName (listed code marked)

/-- A row is read back from its line, whatever follows the line. -/
theorem line_inj {left right : Row} (leftListed : left.Listed target.catalog)
    (rightListed : right.Listed target.catalog) {leftRest rightRest : String}
    (same : left.line target.catalog ++ leftRest = right.line target.catalog ++ rightRest) :
    left = right ∧ leftRest = rightRest := by
  simp only [line, String.append_assoc, String.append_right_inj] at same
  obtain ⟨pcs, same⟩ := Text.cut (by decide) (Text.colon_notMem_hexColumn _)
    (Text.colon_notMem_hexColumn _) same
  obtain ⟨slots, same⟩ := Text.cut (by decide) (Text.bracket_notMem_spaced left.words_slots)
    (Text.bracket_notMem_spaced right.words_slots) same
  obtain ⟨names, rest⟩ := Text.cut (by decide) (Text.bracket_notMem_spaced leftListed.words)
    (Text.bracket_notMem_spaced rightListed.words) same
  have samePc : left.pc = right.pc := UInt32.toNat_inj.mp (Text.hexColumn_inj pcs)
  have sameSlots : left.slots = right.slots :=
    (List.map_inj_right fun _ _ => Text.decimal_inj).mp
      (Text.spaced_inj left.words_slots right.words_slots slots)
  have sameCodes : left.codes = right.codes := by
    have words := Text.spaced_inj leftListed.words rightListed.words names
    rw [← leftListed.codes_eq, ← rightListed.codes_eq, words]
  exact ⟨Row.ext samePc sameSlots sameCodes, rest⟩

/-- Rows are read back from their lines. -/
theorem lines_inj {left right : List Row} (leftListed : ∀ row ∈ left, row.Listed target.catalog)
    (rightListed : ∀ row ∈ right, row.Listed target.catalog)
    (same : String.join (left.map (line target.catalog)) =
      String.join (right.map (line target.catalog))) : left = right := by
  have shown : ∀ row rest, String.join (((row : Row) :: rest).map (line target.catalog)) ≠ "" := by
    intro row rest
    simp [line, String.append_assoc]
  induction left generalizing right with
  | nil =>
    cases right with
    | nil => rfl
    | cons row rest => exact absurd same.symm (shown row rest)
  | cons first rest induction =>
    cases right with
    | nil => exact absurd same (shown first rest)
    | cons other others =>
      rw [List.map_cons, List.map_cons, String.join_cons, String.join_cons] at same
      obtain ⟨rfl, later⟩ :=
        line_inj (leftListed first (by simp)) (rightListed other (by simp)) same
      rw [induction (fun row member => leftListed row (by simp [member]))
        (fun row member => rightListed row (by simp [member])) later]

end Row

/-- The row of an entry. -/
def Entry.row (entry : Entry) : Row := ⟨entry.pc, entry.frameSlots, entry.registerCodes⟩

/-- The row of an entry that is not wider than the catalog marks its registers only. -/
theorem Entry.listed_row {catalog : Catalog} {entry : Entry}
    (narrow : entry.registerBits ≤ catalog.referenceCount) : entry.row.Listed catalog := by
  intro code marked
  exact Nat.lt_of_lt_of_le (Byte.mem_setBits.mp marked).1 narrow

namespace CompiledMethod

/-- The registers with encodings below the number of general-purpose registers are
named without a fault. -/
theorem registerNames_eq {catalog : Catalog} {codes : List Nat}
    (inside : ∀ code ∈ codes, code < catalog.referenceCount) :
    registerNames catalog codes = .ok (codes.map catalog.generalName) := by
  apply Checked.mapM_eq_ok
  intro code member
  obtain ⟨register, stored⟩ : ∃ register, (catalog.registers .general)[code]? = some register :=
    ⟨_, List.getElem?_eq_getElem (inside code member)⟩
  rw [Checked.element_eq_ok.mpr stored]
  exact Catalog.name_general stored

/-- A whole entry that is not wider than the catalog is listed as its row. -/
theorem entryLine_eq {catalog : Catalog} {entry : Entry} (whole : entry.Whole)
    (narrow : entry.registerBits ≤ catalog.referenceCount) :
    entryLine catalog entry = .ok (entry.row.line catalog) := by
  have slots : entry.frameSlotsChecked = .ok entry.frameSlots := Entry.setBitsChecked_eq whole.frame
  have codes : entry.registerCodesChecked = .ok entry.registerCodes :=
    Entry.setBitsChecked_eq whole.registers
  have names : registerNames catalog entry.registerCodes =
      .ok (entry.registerCodes.map catalog.generalName) :=
    registerNames_eq (Entry.listed_row narrow)
  rw [entryLine, slots, Checked.ok_bind, codes, Checked.ok_bind, names]
  rfl

/-- The rows of the maps of a table, in the order of their offsets. -/
def rowsOf (frameBits registerBits : Nat) (maps : List (UInt32 × ReferenceMap)) : List Row :=
  (Table.ordered maps).map fun entry => (Table.entryOf frameBits registerBits entry.1 entry.2).row

/-- The rows of maps that are not wider than the catalog mark its registers only. -/
theorem listed_rowsOf {catalog : Catalog} {frameBits registerBits : Nat}
    {maps : List (UInt32 × ReferenceMap)} (narrow : registerBits ≤ catalog.referenceCount) :
    ∀ row ∈ rowsOf frameBits registerBits maps, row.Listed catalog := by
  intro row member
  obtain ⟨entry, _, rfl⟩ := List.mem_map.mp member
  exact Entry.listed_row narrow

/-- A compiled method over a packed table that is not wider than the target is listed as
its first line and its rows. -/
theorem listing_packed {method : CompiledMethod} {frameBits registerBits : Nat}
    {maps : List (UInt32 × ReferenceMap)}
    (packed : method.maps = Table.packed frameBits registerBits maps)
    (storable : Table.Storable frameBits registerBits maps.length)
    (narrow : registerBits ≤ method.target.catalog.referenceCount) :
    method.listing = .ok (method.header ++
      String.join ((rowsOf frameBits registerBits maps).map (Row.line method.target.catalog))) := by
  have size : method.maps.size = (Table.ordered maps).length := by
    rw [packed, Table.size, Table.packed, List.length_map]
  have lines : (List.range (Table.ordered maps).length).mapM (fun position => do
      let entry ← method.maps.entry position
      entryLine method.target.catalog entry) = .ok ((Table.ordered maps).mapIdx fun _ entry =>
        (Table.entryOf frameBits registerBits entry.1 entry.2).row.line method.target.catalog) := by
    apply Checked.mapM_range
    rintro position ⟨pc, map⟩ held
    rw [packed, Table.entry_packed storable.frame storable.registers storable.bytes held,
      Checked.ok_bind]
    exact entryLine_eq (Table.whole_entryOf frameBits registerBits pc map) narrow
  rw [listing, size, lines, rowsOf, List.map_map, Checked.ok_bind, Checked.pure_eq_ok]
  congr 3
  apply List.ext_getElem?
  intro position
  rw [List.getElem?_mapIdx, List.getElem?_map]
  rfl

/-- What the first line shows is read back from it, whatever follows the line, if the
name is known. -/
theorem header_inj {left right : CompiledMethod} (named : left.name = right.name)
    {leftRest rightRest : String}
    (same : left.header ++ leftRest = right.header ++ rightRest) :
    left.target = right.target ∧ left.frameSize = right.frameSize ∧ leftRest = rightRest := by
  simp only [header, named, String.append_assoc, String.append_right_inj] at same
  obtain ⟨targets, same⟩ := Text.cut (by decide) left.target.comma_notMem_name
    right.target.comma_notMem_name same
  obtain ⟨sizes, same⟩ := Text.cut (by decide) (Text.word_decimal _).unspaced
    (Text.word_decimal _).unspaced same
  obtain ⟨_, rest⟩ := Text.cut (by decide) (Text.word_decimal _).unspaced
    (Text.word_decimal _).unspaced same
  exact ⟨Architecture.name_inj targets, UInt32.toNat_inj.mp (Text.decimal_inj sizes), rest⟩

end CompiledMethod

/-! ## Tables behind the lines -/

/-- The offset and the bytes of the map that has the slots and registers of a row. -/
def Row.coded (frameBits registerBits : Nat) (row : Row) : UInt32 × List Byte :=
  Table.coded frameBits registerBits
    (row.pc, ⟨.ofPositions frameBits row.slots, .ofPositions registerBits row.codes⟩)

namespace Table

variable {frameBits registerBits : Nat} {maps left right : List (UInt32 × ReferenceMap)}

/-- The bytes of maps are known from their rows: a map that is read back from its bytes is
made from the listed positions, and is packed into the same bytes. -/
theorem coded_eq_of_rows (shaped : ∀ entry ∈ maps, Shaped frameBits registerBits entry.2) :
    (ordered maps).map (coded frameBits registerBits) =
      (CompiledMethod.rowsOf frameBits registerBits maps).map
        (Row.coded frameBits registerBits) := by
  rw [CompiledMethod.rowsOf, List.map_map]
  apply List.map_congr_left
  intro entry member
  exact (coded_readBack (shaped entry ((ordered_perm maps).mem_iff.mp member))).symm

/-- Shaped maps with the same rows are packed into the same table. -/
theorem packed_of_rows (leftShaped : ∀ entry ∈ left, Shaped frameBits registerBits entry.2)
    (rightShaped : ∀ entry ∈ right, Shaped frameBits registerBits entry.2)
    (same : CompiledMethod.rowsOf frameBits registerBits left =
      CompiledMethod.rowsOf frameBits registerBits right) :
    packed frameBits registerBits left = packed frameBits registerBits right := by
  apply packed_of_coded
  rw [coded_eq_of_rows leftShaped, coded_eq_of_rows rightShaped, same]

end Table

namespace Method

variable {method : Method} {builder : MapBuilder}

/-- Maps that were drawn have the shape of the table, however many safepoints there
are. -/
theorem shaped_of_mapsOf {entries : List (SafepointId × Safepoint)}
    {maps : List (UInt32 × ReferenceMap)}
    (drawn : method.mapsOf builder entries = .ok (.ok maps)) :
    ∀ item ∈ maps, Table.Shaped builder.frameLength builder.registerLength item.2 := by
  induction entries generalizing maps with
  | nil =>
    cases drawn
    simp
  | cons entry rest induction =>
    obtain ⟨live, _, drawn⟩ := Checked.bind_eq_ok.mp drawn
    obtain ⟨result, built, drawn⟩ := Checked.bind_eq_ok.mp drawn
    rw [MapBuilder.buildChecked_eq, Except.ok.injEq] at built
    cases result with
    | error rejection => cases drawn
    | ok map =>
      obtain ⟨outcome, later, drawn⟩ := Checked.bind_eq_ok.mp drawn
      cases outcome with
      | error rejection => cases drawn
      | ok others =>
        cases drawn
        intro item member
        rcases List.mem_cons.mp member with rfl | inRest
        · exact MapBuilder.shaped_of_build built
        · exact induction later item inRest

/-- A table is packed from maps that a builder drew. -/
structure PackedFrom (builder : MapBuilder) (maps : List (UInt32 × ReferenceMap))
    (table : Table) : Prop where
  shaped : ∀ item ∈ maps, Table.Shaped builder.frameLength builder.registerLength item.2
  storable : Table.Storable builder.frameLength builder.registerLength maps.length
  packed : table = Table.packed builder.frameLength builder.registerLength maps

/-- The table of a method is packed from maps that its builder drew. -/
theorem table_inv {table : Table} (tabled : method.table = .ok (.ok table)) :
    ∃ builder maps, method.mapBuilder = .ok builder ∧ PackedFrom builder maps table := by
  obtain ⟨verdict, _, tabled⟩ := Checked.bind_eq_ok.mp tabled
  cases verdict with
  | error violations => cases tabled
  | ok _ =>
    obtain ⟨builder, made, tabled⟩ := Checked.bind_eq_ok.mp tabled
    obtain ⟨result, drawn, tabled⟩ := Checked.bind_eq_ok.mp tabled
    cases result with
    | error rejection => cases tabled
    | ok maps =>
      have shaped := shaped_of_mapsOf drawn
      have storable := Table.storable_of_ofMaps tabled
      have whole := Table.ofMaps_eq storable.frame storable.registers storable.bytes shaped
      have same := Except.ok.inj (tabled.symm.trans whole)
      refine ⟨builder, maps, made, shaped, storable, ?_⟩
      split at same
      · cases same
      · exact Except.ok.inj same

/-- The registers of a builder are those of the target of its method. -/
theorem registerLength_eq (made : method.mapBuilder = .ok builder) :
    builder.registerLength = method.target.catalog.referenceCount := by
  rw [MapBuilder.registerLength, (mapBuilder_eq_ok.mp made).1]
  rfl

/-- The listing of a method over the table that its builder packed. -/
theorem listing_packedFrom {maps : List (UInt32 × ReferenceMap)} {table : Table}
    (made : method.mapBuilder = .ok builder) (origin : PackedFrom builder maps table) :
    (method.compiledWith table).listing = .ok ((method.compiledWith table).header ++
      String.join ((CompiledMethod.rowsOf builder.frameLength builder.registerLength maps).map
        (Row.line method.target.catalog))) :=
  CompiledMethod.listing_packed origin.packed origin.storable
    (Nat.le_of_eq (registerLength_eq made))

/-- A method whose table was packed is listed without a fault. -/
theorem listing_of_table {table : Table} (tabled : method.table = .ok (.ok table)) :
    ∃ text, (method.compiledWith table).listing = .ok text := by
  obtain ⟨builder, maps, made, origin⟩ := table_inv tabled
  exact ⟨_, listing_packedFrom made origin⟩

/-- A method is finished with the compiled method over its table. -/
theorem finish_eq_ok {compiled : CompiledMethod} :
    method.finish = .ok (.ok compiled) ↔
      ∃ table, method.table = .ok (.ok table) ∧ compiled = method.compiledWith table := by
  rw [finish, Checked.bind_eq_ok]
  constructor
  · rintro ⟨result, tabled, made⟩
    cases result with
    | error cause => cases made
    | ok table =>
      cases made
      exact ⟨table, tabled, rfl⟩
  · rintro ⟨table, tabled, rfl⟩
    exact ⟨.ok table, tabled, rfl⟩

/-- The lengths of the bitmaps of a method are computed from its convention and the size
of its spill area. -/
theorem lengths_eq {other : Method} {otherBuilder : MapBuilder}
    (made : method.mapBuilder = .ok builder) (otherMade : other.mapBuilder = .ok otherBuilder)
    (convention : method.convention = other.convention)
    (area : method.frameSize = other.frameSize) :
    builder.frameLength = otherBuilder.frameLength ∧
      builder.registerLength = otherBuilder.registerLength := by
  obtain ⟨sameConvention, sameSize, sameWidth⟩ := mapBuilder_eq_ok.mp made
  obtain ⟨otherConvention, otherSize, otherWidth⟩ := mapBuilder_eq_ok.mp otherMade
  simp only [MapBuilder.frameLength, MapBuilder.frameBits, MapBuilder.registerLength,
    sameConvention, sameSize, sameWidth, otherConvention, otherSize, otherWidth, convention, area,
    and_self]

end Method

/-- A compiled method over a convention of the targets is listed without a fault, and two
of them with one name have the same listing exactly when they are the same: target, size
of the spill area, offsets, lengths of the bitmaps and packed bytes. -/
theorem listing_faithful {left right : Method} {leftTarget rightTarget : Architecture}
    {leftCompiled rightCompiled : CompiledMethod}
    (leftOwn : left.convention = leftTarget.convention)
    (rightOwn : right.convention = rightTarget.convention)
    (leftFinished : left.finish = .ok (.ok leftCompiled))
    (rightFinished : right.finish = .ok (.ok rightCompiled)) :
    ∃ leftText rightText, leftCompiled.listing = .ok leftText ∧
      rightCompiled.listing = .ok rightText ∧
      (leftCompiled.name = rightCompiled.name →
        (leftText = rightText ↔ leftCompiled = rightCompiled)) := by
  obtain ⟨leftTable, leftTabled, rfl⟩ := Method.finish_eq_ok.mp leftFinished
  obtain ⟨rightTable, rightTabled, rfl⟩ := Method.finish_eq_ok.mp rightFinished
  obtain ⟨leftBuilder, leftMaps, leftMade, leftOrigin⟩ := Method.table_inv leftTabled
  obtain ⟨rightBuilder, rightMaps, rightMade, rightOrigin⟩ := Method.table_inv rightTabled
  have leftListing := Method.listing_packedFrom leftMade leftOrigin
  have rightListing := Method.listing_packedFrom rightMade rightOrigin
  refine ⟨_, _, leftListing, rightListing, fun named => ⟨?_, ?_⟩⟩
  · intro same
    obtain ⟨targets, areas, lines⟩ := CompiledMethod.header_inj named same
    change left.target = right.target at targets
    change left.frameSize = right.frameSize at areas
    change left.name = right.name at named
    have conventions : left.convention = right.convention := by
      rw [Method.target, Method.target, leftOwn, rightOwn, Architecture.target_convention,
        Architecture.target_convention] at targets
      rw [leftOwn, rightOwn, targets]
    -- The lengths of the bitmaps are not written, so they have to agree before the rows do.
    obtain ⟨frame, registers⟩ := Method.lengths_eq leftMade rightMade conventions areas
    have width := Nat.le_of_eq (Method.registerLength_eq rightMade)
    rw [frame, registers, targets] at lines
    have rows := Row.lines_inj (CompiledMethod.listed_rowsOf width)
      (CompiledMethod.listed_rowsOf width) lines
    have leftShaped := leftOrigin.shaped
    rw [frame, registers] at leftShaped
    have tables : leftTable = rightTable := by
      rw [leftOrigin.packed, rightOrigin.packed, frame, registers]
      exact Table.packed_of_rows leftShaped rightOrigin.shaped rows
    rw [Method.compiledWith, Method.compiledWith, named, targets, areas, tables]
  · intro same
    have listings := congrArg CompiledMethod.listing same
    exact Except.ok.inj (leftListing.symm.trans (listings.trans rightListing))

/-- A method with one reference at one safepoint. Its name reads like the listing of
another method. -/
def deceptive (location : Location) : Method where
  name := "f (amd64, frame 8 bytes, 1 safepoint(s))\n  0x0008: frame [0] regs []\nf"
  convention := Architecture.amd64.convention
  values := [⟨.reference, location, .insert .empty 0⟩]
  safepoints := [⟨8, .poll⟩]
  frameSize := 8

/-- What the method compiles to, with the given bytes. -/
def deceptiveCompiled (bytes : List Byte) : CompiledMethod :=
  ⟨(deceptive .unassigned).name, .amd64, 8, ⟨1, 16, [8], bytes⟩⟩

/-- The reference in a slot and the reference in a register are listed differently. -/
theorem listing_faithful_deceptive :
    (deceptive (.spill 0)).finish = .ok (.ok (deceptiveCompiled [1, 0, 0])) ∧
    (deceptive (.register ⟨3, .general⟩)).finish = .ok (.ok (deceptiveCompiled [0, 8, 0])) ∧
    ∃ spilledText heldText, (deceptiveCompiled [1, 0, 0]).listing = .ok spilledText ∧
      (deceptiveCompiled [0, 8, 0]).listing = .ok heldText ∧ spilledText ≠ heldText := by
  have own : ∀ location, (deceptive location).convention = Architecture.amd64.convention :=
    fun _ => rfl
  have few : ∀ location, (deceptive location).safepoints.length < 2 ^ 32 - 1 :=
    fun _ => (by decide : 1 < 2 ^ 32 - 1)
  have spilled : (deceptive (.spill 0)).finish = .ok (.ok (deceptiveCompiled [1, 0, 0])) :=
    (Method.finish_of_maps rfl (few (.spill 0)) rfl rfl rfl :)
  have held : (deceptive (.register ⟨3, .general⟩)).finish =
      .ok (.ok (deceptiveCompiled [0, 8, 0])) :=
    (Method.finish_of_maps rfl (few (.register ⟨3, .general⟩)) rfl rfl rfl :)
  obtain ⟨spilledText, heldText, spilledListed, heldListed, alike⟩ :=
    listing_faithful (own _) (own _) spilled held
  refine ⟨spilled, held, spilledText, heldText, spilledListed, heldListed, ?_⟩
  rw [ne_eq, alike rfl]
  decide

end StackMaps
