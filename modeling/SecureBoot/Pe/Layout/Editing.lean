import SecureBoot.Pe.Layout.Encoding

/-!
# Editing a layout

**Removing** drops every section of a name. **Adding** appends one: its name must be new and fit for
a section header, its address aligned, and its pages free, both of other sections and of the headers
as they will be with one section more.

**A name of more than eight bytes** goes into the string table first. `addSection` gives the layout
that results together with the error, if there was one: a name that the string table has taken in
stays there even when the reference to it turns out too long for the header.

**Whole requests** (`applySections`) first remove every section of a requested name, then add all
requested sections in order.
-/

namespace SecureBoot.Pe

/-- A section to place into an executable. Without an alignment of its own, or with zero, it takes
that of the executable. -/
structure SectionRequest where
  name : String
  virtualAddress : UInt32
  alignment : Option UInt32 := none
  data : Bytes
  deriving DecidableEq, Inhabited, Repr

/-- Refuses names that a section header cannot store. -/
def checkName (name : String) : Except Error Unit :=
  if name.isEmpty then throw (.badSectionName name .empty)
  else if name.toList.contains (Char.ofNat 0) then throw (.badSectionName name .zeroByte)
  else if name.toList.head? = some '/' then throw (.badSectionName name .leadingSlash)
  else return ()

namespace SectionRequest

/-- The alignment asked for, zero counting as none. -/
def explicitAlignment (r : SectionRequest) : Option UInt32 := r.alignment.filter (· ≠ 0)

/-- Initialised, readable data; an explicit alignment up to 8192 is stated too. -/
def characteristics (r : SectionRequest) : UInt32 :=
  let base : UInt32 := 0x40000040
  match r.explicitAlignment with
  | none => base
  | some a => if a ≤ 8192 then base + UInt32.ofNat ((a.toNat.log2 + 1) <<< 20) else base

end SectionRequest

/-- The first request whose name an earlier one has is refused. -/
def checkDistinct (seen : List String) : List SectionRequest → Except Error Unit
  | [] => return ()
  | r :: rest =>
    if r.name ∈ seen then throw (.duplicateSection r.name)
    else checkDistinct (r.name :: seen) rest

namespace Layout

/-- The layout without the sections of a name. -/
def removeSection (l : Layout) (name : String) : Layout :=
  { l with sections := l.sections.filter (·.name ≠ name) }

/-- Addresses of a mapped range, the end excluded. -/
structure Mapped where
  start : Nat
  stop : Nat
  deriving DecidableEq, Repr

def Mapped.isEmpty (m : Mapped) : Bool := m.stop ≤ m.start

/-- Whether two ranges have no address in common. -/
def Mapped.isDisjoint (m n : Mapped) : Bool :=
  m.isEmpty || n.isEmpty || m.stop ≤ n.start || n.stop ≤ m.start

/-- The pages that a section of some size takes at an address. -/
def mapped (l : Layout) (address : UInt32) (size : Nat) : Mapped :=
  ⟨address.toNat, address.toNat + alignUp size l.sectionAlignment.toNat⟩

/-- The pages that the headers take with a number of sections. -/
def mappedHeaders (l : Layout) (sections : Nat) : Mapped :=
  ⟨0, alignUp (l.sizeOfHeaders sections) l.sectionAlignment.toNat⟩

def checkDisjoint (name : String) (range : Mapped) (other : String) (otherRange : Mapped) :
    Except Error Unit :=
  if range.isDisjoint otherRange then return ()
  else throw (.sectionOverlap name other range.start range.stop)

/-- Refuses a request that the layout has no place for. -/
def checkRequest (l : Layout) (r : SectionRequest) : Except Error Unit := do
  checkName r.name
  if (l.section? r.name).isSome then throw (.duplicateSection r.name)
  let alignment := r.explicitAlignment.getD l.sectionAlignment
  if ¬ (isPowerOfTwo alignment.toNat ∧ r.virtualAddress % alignment = 0) then
    throw (.badAlignment r.name alignment r.virtualAddress)
  let size := r.data.length
  let limit := maxWord - r.virtualAddress.toNat
  if limit < alignUp size l.fileAlignment.toNat then
    throw (.sectionTooLarge r.name size limit)
  let range := l.mapped r.virtualAddress size
  checkDisjoint r.name range "headers" (l.mappedHeaders (l.sections.length + 1))
  l.sections.forM fun s =>
    checkDisjoint r.name range s.name (l.mapped s.header.virtualAddress s.header.span)

/-- The name field for a name, and the symbols that go with it. -/
def encodeName (symbols : Option SymbolTable) (name : String) :
    Except Error Bytes × Option SymbolTable :=
  let bytes := Text.encode name
  if bytes.length ≤ SectionHeader.nameSize then
    (.ok (Bytes.padTo bytes SectionHeader.nameSize), symbols)
  else
    let (offset, table) := (symbols.getD SymbolTable.empty).intern bytes
    let reference := Text.encode s!"/{offset}"
    if SectionHeader.nameSize < reference.length then
      (.error (.badSectionName name (.offsetTooLong offset)), some table)
    else (.ok (Bytes.padTo reference SectionHeader.nameSize), some table)

/-- The section that a request asks for. -/
def requestedSection (l : Layout) (r : SectionRequest) (rawName : Bytes) : Section :=
  let data := Bytes.padTo r.data (alignUp r.data.length l.fileAlignment.toNat)
  { name := r.name
    header := {
      rawName
      virtualSize := UInt32.ofNat r.data.length
      virtualAddress := r.virtualAddress
      sizeOfRawData := UInt32.ofNat data.length
      characteristics := r.characteristics }
    data }

/-- The layout after the attempt to append a section, and the error that stopped it. -/
def addSection (l : Layout) (r : SectionRequest) : Layout × Option Error :=
  match l.checkRequest r with
  | .error e => (l, some e)
  | .ok () =>
    match encodeName l.symbols r.name with
    | (.error e, symbols) => ({ l with symbols }, some e)
    | (.ok rawName, symbols) =>
      ({ l with symbols, sections := l.sections ++ [l.requestedSection r rawName] }, none)

/-- Appends sections in order, up to the first that fails. -/
def addSections (l : Layout) : List SectionRequest → Except Error Layout
  | [] => return l
  | r :: rest =>
    match l.addSection r with
    | (_, some e) => throw e
    | (l', none) => addSections l' rest

end Layout

/-- The executable with the requested sections in place of all those of the same names. -/
def applySections (image : Bytes) (requests : List SectionRequest) : Except Error Bytes := do
  requests.forM fun r => checkName r.name
  checkDistinct [] requests
  let layout ← Layout.decode image
  let cleared := requests.foldl (fun l r => l.removeSection r.name) layout
  let edited ← cleared.addSections requests
  edited.encode

end SecureBoot.Pe
