import DeviceTree.Proofs.AssembledStructure
import DeviceTree.Proofs.RoundTrip

/-!
# What assembly text assembles to

The text for boot information assembles to the blob for it, with a first reservation for the blob itself
(`BootInfo.assemble_toAssembly`). The header (`emits_headerLines`) and the reservation map (`emits_reservationLines`)
are written by hand in the text, with differences of symbols for what the layout has as numbers.
-/

namespace DeviceTree

open Assembler (IsSymbol Emits)
open BigEndian (word32 word64)

theorem BigEndian.word64_ofNat (n : Nat) : word64 (UInt64.ofNat n) = BigEndian.encode 8 n :=
  BigEndian.encode_congr 8 (by rw [UInt64.toNat_ofNat']; exact Nat.mod_mod n _)

/-- The boot information with a reservation in front of the others. -/
def BootInfo.reserve (info : BootInfo) (r : Reservation) : BootInfo :=
  { info with reservations := r :: info.reservations }

/-- The boot information with a first reservation for the blob that is written for it, loaded at an address. What is
reserved makes no difference to the size of the blob. -/
def BootInfo.reserveSelf (info : BootInfo) (v : Version) (address : UInt64) : BootInfo :=
  info.reserve ⟨address, .ofNat ((info.reserve ⟨address, 0⟩).layout v).totalSize⟩

theorem BootInfo.reserveSelf_eq (info : BootInfo) (v : Version) (address : UInt64) :
    info.reserveSelf v address =
      info.reserve ⟨address, .ofNat ((info.reserveSelf v address).layout v).totalSize⟩ := rfl

namespace Assembly

variable {symbols : Assembler.Symbols} {symbolPrefix : String} {l : Layout} {place : Nat}

/-! ## The header and the reservation map -/

theorem emits_mark (hp : IsSymbol symbolPrefix) {part : String} (hpart : part ∈ parts) :
    Emits symbols place (mark symbolPrefix part) [] (markLabels symbolPrefix (part, place)) := by
  have hsymbol : ∀ s ∈ symbolsOfPart symbolPrefix part, IsSymbol s := fun s hs => isSymbol_of_part hp hpart hs
  have hexported : Emits symbols place (exported (symbolPrefix ++ "_" ++ part)) [] _ :=
    .exported (hsymbol _ List.mem_cons_self)
  exact hexported.append (.label (hsymbol _ (List.mem_cons_of_mem _ List.mem_cons_self))) rfl

/-- How far one part is behind another. -/
theorem value?_span (h : Knows symbols symbolPrefix l) {later earlier : String} {m n : Nat}
    (hlater : (later, m) ∈ marks l) (hearlier : (earlier, n) ∈ marks l)
    (hle : n ≤ m) :
    (Operand.difference (partSymbol symbolPrefix later) (partSymbol symbolPrefix earlier)).amount.value? symbols =
      some ((m - n : Nat) : Int) := by
  simp only [Operand.amount, Assembler.Amount.value?, Assembler.Term.value?, List.mapM_cons, List.mapM_nil,
    h.part _ hlater, h.part _ hearlier, Option.bind_eq_bind, Option.bind_some, Option.pure_def, List.foldl_cons,
    List.foldl_nil, Option.some.injEq]
  omega

/-- The name of a field as a remark behind a number. -/
theorem remarkEnds_field {gap : String} (hgap : gap = " " ∨ gap = "\t") (field : HeaderField) (o : Operand) :
    (Directive.long o (gap ++ ("/* " ++ field.name ++ " */"))).RemarkEnds := by
  refine .inr ⟨gap, field.name, hgap, ?_, ?_⟩
  · cases field <;> decide +kernel
  · simp only [String.append_assoc]

theorem isSymbol_partSymbol (hp : IsSymbol symbolPrefix) {part : String} {n : Nat}
    (hm : (part, n) ∈ marks l) : IsSymbol (partSymbol symbolPrefix part) :=
  isSymbol_of_part hp (mem_parts_of_mem_marks hm) (List.mem_cons_of_mem _ List.mem_cons_self)

theorem isSymbol_span (hp : IsSymbol symbolPrefix) {later earlier : String} {m n : Nat}
    (hlater : (later, m) ∈ marks l) (hearlier : (earlier, n) ∈ marks l) :
    ∀ s ∈ (Operand.difference (partSymbol symbolPrefix later) (partSymbol symbolPrefix earlier)).symbols,
      IsSymbol s := by
  intro s hs
  rcases List.mem_cons.1 hs with rfl | hs
  · exact isSymbol_partSymbol hp hlater
  · obtain rfl := List.mem_singleton.1 hs
    exact isSymbol_partSymbol hp hearlier

theorem emits_span (h : Knows symbols symbolPrefix l) (hp : IsSymbol symbolPrefix) {later earlier : String}
    {m n : Nat} (hlater : (later, m) ∈ marks l)
    (hearlier : (earlier, n) ∈ marks l) (hle : n ≤ m) {remark : String}
    (hremark : ∀ o, (Directive.long o remark).RemarkEnds) :
    Emits symbols place [.long (.difference (partSymbol symbolPrefix later) (partSymbol symbolPrefix earlier)) remark]
      (word32 (.ofNat (m - n))) [] := by
  rw [BigEndian.word32_ofNat, ← Assembler.numberBytes_natCast]
  exact .long (isSymbol_span hp hlater hearlier) (hremark _) (value?_span h hlater hearlier hle)

theorem emits_noWords (place : Nat) : Emits symbols place [] (([] : List UInt32).flatMap word32) [] :=
  .nil

theorem emits_words {d : Directive} {w : UInt32} {ds : List Directive} {ws : List UInt32}
    (hd : ∀ place, Emits symbols place [d] (word32 w) [])
    (hds : ∀ place, Emits symbols place ds (ws.flatMap word32) []) (place : Nat) :
    Emits symbols place (d :: ds) ((w :: ws).flatMap word32) [] :=
  (hd place).append (hds _) rfl

/-- A word that not every header has. -/
theorem emits_optional (present : Bool) {d : Directive} {w : UInt32}
    (hd : ∀ place, Emits symbols place [d] (word32 w) []) (place : Nat) :
    Emits symbols place (if present then [d] else [])
      ((if present then some w else none).toList.flatMap word32) [] := by
  cases present with
  | false => exact .nil
  | true => exact emits_words hd emits_noWords place

theorem emits_headerLines {s : Settings} {v : Version} {sizes : BlockSizes}
    (h : Knows symbols s.symbolPrefix (.of v sizes)) (hp : IsSymbol s.symbolPrefix) (place : Nat) :
    Emits symbols place (headerLines v s) ((Layout.of v sizes).header v sizes s.assemblyCpuid).toBytes [] := by
  obtain ⟨-, -, hstrings⟩ := Layout.offsets_le v sizes
  have hblank := fun field => remarkEnds_field (.inl rfl) field
  have htab := fun field => remarkEnds_field (.inr rfl) field
  have hmagic : (magicSymbol, Header.magicNumber.toNat) ∈ constants := by decide +kernel
  generalize hl : Layout.of v sizes = l at h hstrings
  have hstart : ("blob_start", 0) ∈ marks l := by simp [marks, frontMarks]
  have hreserve : ("reserve_map", l.reservationsOffset) ∈ marks l := by simp [marks, frontMarks]
  have hstruct : ("struct_start", l.structureOffset) ∈ marks l := by simp [marks, frontMarks]
  have hnames : ("strings_start", l.stringsOffset) ∈ marks l := by simp [marks, backMarks]
  have hnamesEnd : ("strings_end", l.totalSize) ∈ marks l := by simp [marks, backMarks]
  have hend : ("blob_end", l.totalSize) ∈ marks l := by simp [marks, backMarks]
  have hseven : ∀ place, Emits symbols place _ _ [] :=
    emits_words (fun _ => emits_constant h hmagic (hblank .magic _)) <|
    emits_words (fun _ => emits_span h hp hend hstart (Nat.zero_le _) (hblank .totalSize)) <|
    emits_words (fun _ => emits_span h hp hstruct hstart (Nat.zero_le _) (hblank .structureOffset)) <|
    emits_words (fun _ => emits_span h hp hnames hstart (Nat.zero_le _) (hblank .stringsOffset)) <|
    emits_words (fun _ => emits_span h hp hreserve hstart (Nat.zero_le _) (hblank .reservationsOffset)) <|
    emits_words (fun _ => Emits.decimal v.number.toNat (hblank .version _)) <|
    emits_words (fun _ => Emits.decimal v.lastCompatible.toNat (hblank .lastCompatible _)) emits_noWords
  have hboot (place : Nat) : Emits symbols place _ _ [] :=
    emits_optional v.features.bootCpuid (fun _ => Emits.hex s.assemblyCpuid.toNat (htab .bootCpuid _)) place
  have hsize (place : Nat) : Emits symbols place _ _ [] :=
    emits_optional v.features.stringsSize (fun _ =>
      emits_span h hp hnamesEnd hnames (Nat.le.intro hstrings) (htab .stringsSize)) place
  rw [show l.totalSize - l.stringsOffset = sizes.stringsSize by omega] at hsize
  rw [Header.toBytes, List.flatMap_append, List.flatMap_append]
  exact ((hseven place).append (hboot _) rfl).append (hsize _) rfl

theorem emits_ofReservations (rs : List Reservation) :
    Emits symbols place (rs.flatMap fun r => ofBytes r.toBytes) (rs.flatMap Reservation.toBytes) [] := by
  induction rs generalizing place with
  | nil => exact .nil
  | cons r rs ih => exact (Emits.ofBytes r.toBytes).append ih rfl

/-- The entry of the blob itself. -/
theorem emits_self (h : Knows symbols symbolPrefix l) (hp : IsSymbol symbolPrefix) {address : UInt64}
    (haddress : symbols.address = address.toNat) :
    Emits symbols place
      [.quad [.symbol (partSymbol symbolPrefix "blob_start"),
        .difference (partSymbol symbolPrefix "blob_end") (partSymbol symbolPrefix "blob_start")]]
      (Reservation.mk address (.ofNat l.totalSize)).toBytes [] := by
  have hstart : ("blob_start", 0) ∈ marks l := by simp [marks, frontMarks]
  have hend : ("blob_end", l.totalSize) ∈ marks l := by simp [marks, backMarks]
  let start := Operand.symbol (partSymbol symbolPrefix "blob_start")
  let size := Operand.difference (partSymbol symbolPrefix "blob_end") (partSymbol symbolPrefix "blob_start")
  have hsymbols : ∀ s ∈ [start, size].flatMap Operand.symbols, IsSymbol s := by
    rw [List.flatMap_cons, List.flatMap_singleton, List.forall_mem_append]
    exact ⟨fun s hs => List.mem_singleton.1 hs ▸ isSymbol_partSymbol hp hstart, isSymbol_span hp hend hstart⟩
  have hplace : start.amount.value? symbols = some (address.toNat : Int) := by
    simp [start, Operand.amount, Assembler.Amount.value?, Assembler.Term.value?, h.part _ hstart, haddress]
  have hsize : size.amount.value? symbols = some (l.totalSize : Int) := value?_span h hend hstart (Nat.zero_le _)
  have hvalues : ([start, size].map Operand.amount).mapM (Assembler.Amount.value? symbols) =
      some [(address.toNat : Int), (l.totalSize : Int)] := by
    simp [hplace, hsize]
  have hbytes : ([address.toNat, l.totalSize] : List Int).flatMap (Assembler.numberBytes 8) =
      (Reservation.mk address (.ofNat l.totalSize)).toBytes := by
    rw [Reservation.toBytes, BigEndian.word64_ofNat, List.flatMap_cons, List.flatMap_singleton,
      Assembler.numberBytes_natCast, Assembler.numberBytes_natCast]
    rfl
  rw [← hbytes]
  exact .quad (List.cons_ne_nil _ _) hsymbols hvalues

/-- The reservation map begins with the blob itself. -/
theorem emits_reservationLines {s : Settings} (h : Knows symbols s.symbolPrefix l) (hp : IsSymbol s.symbolPrefix)
    {address : UInt64} (haddress : symbols.address = address.toNat) (rs : List Reservation) :
    Emits symbols place (reservationLines s rs)
      ((⟨address, .ofNat l.totalSize⟩ :: rs ++ [Reservation.terminator]).flatMap Reservation.toBytes) [] := by
  have hothers (place : Nat) : Emits symbols place (if rs = [] then []
      else .comment "Memory reserve map from source file" :: rs.flatMap fun r => ofBytes r.toBytes)
      (rs.flatMap Reservation.toBytes) [] := by
    split
    · rename_i hrs
      rw [hrs]
      exact .nil
    · exact (Emits.comment (by decide)).append (emits_ofReservations rs) rfl
  have hzero (place : Nat) : Emits symbols place [.quad [.decimal 0]] (BigEndian.encode 8 0) [] := by
    have hsymbols : ∀ s ∈ [Operand.decimal 0].flatMap Operand.symbols, IsSymbol s := nofun
    have hvalues : ([Operand.decimal 0].map Operand.amount).mapM (Assembler.Amount.value? symbols) =
        some [(0 : Int)] := rfl
    exact .quad (List.cons_ne_nil _ _) hsymbols hvalues
  have hend := (hzero (place + 16 + (rs.flatMap Reservation.toBytes).length)).append (hzero _) rfl
  have hall := ((emits_self h hp haddress).append (hothers (place + 16)) rfl).append hend
    (by simp [Reservation.entrySize, Nat.add_assoc])
  have hbytes : (⟨address, .ofNat l.totalSize⟩ :: rs ++ [Reservation.terminator]).flatMap Reservation.toBytes =
      (Reservation.mk address (.ofNat l.totalSize)).toBytes ++ rs.flatMap Reservation.toBytes ++
        (BigEndian.encode 8 0 ++ BigEndian.encode 8 0) := by
    rw [List.flatMap_append, List.flatMap_cons, List.flatMap_singleton]
    rfl
  rw [hbytes]
  exact hall

/-! ## The whole text -/

/-- The lines between the preamble and the structure block. -/
def frontLines (info : BootInfo) (v : Version) (s : Settings) : List Directive :=
  mark s.symbolPrefix "blob_start" ++ mark s.symbolPrefix "header" ++ headerLines v s ++ [.balign 8] ++
    mark s.symbolPrefix "reserve_map" ++ reservationLines s info.reservations ++ mark s.symbolPrefix "struct_start"

/-- The lines behind the structure block. -/
def backLines (symbolPrefix : String) (table : StringTable) : List Directive :=
  mark symbolPrefix "struct_end" ++ mark symbolPrefix "strings_start" ++ table.names.map .string ++
    mark symbolPrefix "strings_end" ++ mark symbolPrefix "blob_end"

section Blob

variable {info full : BootInfo} {v : Version} {s : Settings} {address : UInt64}

theorem program_eq (table : StringTable) (items : List Structure.Item) :
    program info v s table items =
      preamble ++ (frontLines info v s ++ items.flatMap ofItem ++ backLines s.symbolPrefix table) := by
  simp only [program, frontLines, backLines, List.append_assoc]

theorem structureOffset_eq (info : BootInfo) (v : Version) (bootCpuid : UInt32) :
    (info.layout v).structureOffset = ((info.header v bootCpuid).toBytes ++
      List.replicate (padding 8 v.headerSize) 0 ++ info.reservationMap).length := by
  rw [List.length_append, List.length_append, BootInfo.length_header, List.length_replicate,
    BootInfo.length_reservationMap]
  rfl

theorem emits_front (hfull : info.reserveSelf v address = full) (h : Knows symbols s.symbolPrefix (full.layout v))
    (hp : IsSymbol s.symbolPrefix) (haddress : symbols.address = address.toNat) :
    Emits symbols 0 (frontLines info v s)
      ((full.header v s.assemblyCpuid).toBytes ++ List.replicate (padding 8 v.headerSize) 0 ++ full.reservationMap)
      ((frontMarks (full.layout v)).flatMap (markLabels s.symbolPrefix)) := by
  have hoffset : (full.layout v).reservationsOffset = v.headerSize + padding 8 v.headerSize := rfl
  have hlength := BootInfo.length_header full v s.assemblyCpuid
  have hstart := structureOffset_eq full v s.assemblyCpuid
  have hheader : Emits symbols 0 (headerLines v s) (full.header v s.assemblyCpuid).toBytes [] :=
    emits_headerLines h hp 0
  have hgap : Emits symbols v.headerSize [.balign 8] (List.replicate (padding 8 v.headerSize) 0) [] := .balign 8
  have hmap : Emits symbols (full.layout v).reservationsOffset (reservationLines s info.reservations)
      full.reservationMap [] := by
    subst hfull
    exact emits_reservationLines h hp haddress info.reservations
  have hmark {part : String} (place : Nat) (hpart : part ∈ parts) : Emits symbols place _ _ _ := emits_mark hp hpart
  have hmarks := (hmark 0 (by decide : "blob_start" ∈ parts)).append (hmark 0 (by decide : "header" ∈ parts)) rfl
  have hlead := (hmarks.append hheader rfl).append hgap (by simp [hlength])
  have hreserved := (hlead.append (hmark (full.layout v).reservationsOffset (by decide : "reserve_map" ∈ parts))
    (by simp [hlength, hoffset])).append hmap (by simp [hlength, hoffset])
  have hall := hreserved.append (hmark (full.layout v).structureOffset (by decide : "struct_start" ∈ parts))
    (by simp [hstart])
  simpa [frontLines, frontMarks, List.append_assoc] using hall

theorem emits_back {table : StringTable} (hp : IsSymbol symbolPrefix)
    (hsize : l.stringsOffset + table.size = l.totalSize) :
    Emits symbols l.stringsOffset (backLines symbolPrefix table) table.toBytes
      ((backMarks l).flatMap (markLabels symbolPrefix)) := by
  have hlength := table.length_toBytes
  have hnames : Emits symbols l.stringsOffset (table.names.map .string) table.toBytes [] := .strings table.names
  have hmark {part : String} (place : Nat) (hpart : part ∈ parts) : Emits symbols place _ _ _ := emits_mark hp hpart
  have hstart := (hmark l.stringsOffset (by decide : "struct_end" ∈ parts)).append
    (hmark l.stringsOffset (by decide : "strings_start" ∈ parts)) rfl
  have hstrings := (hstart.append hnames rfl).append (hmark l.totalSize (by decide : "strings_end" ∈ parts))
    (by simp [hlength, hsize])
  have hall := hstrings.append (hmark l.totalSize (by decide : "blob_end" ∈ parts)) (by simp [hlength, hsize])
  simpa [backLines, backMarks, List.append_assoc] using hall

/-- All lines behind the preamble, where those of the items have these labels. -/
theorem emits_body (hfull : info.reserveSelf v address = full) (h : Knows symbols s.symbolPrefix (full.layout v))
    (hp : IsSymbol s.symbolPrefix) (haddress : symbols.address = address.toNat) {items : List Structure.Item}
    {labels : List (String × Nat)}
    (hitems : Emits symbols (full.layout v).structureOffset (items.flatMap ofItem) (info.structureBlock v) labels) :
    Emits symbols 0 (frontLines info v s ++ items.flatMap ofItem ++ backLines s.symbolPrefix (info.stringTable v))
      (full.blobBytes v s.assemblyCpuid)
      ((frontMarks (full.layout v)).flatMap (markLabels s.symbolPrefix) ++ labels ++
        (backMarks (full.layout v)).flatMap (markLabels s.symbolPrefix)) := by
  have hblock : full.structureBlock v = info.structureBlock v := by
    subst hfull
    rfl
  have htable : full.stringTable v = info.stringTable v := by
    subst hfull
    rfl
  obtain ⟨-, hstrings, htotal⟩ := BootInfo.layout_offsets_le full v
  rw [← hblock] at hitems
  rw [← htable]
  have hstart := structureOffset_eq full v s.assemblyCpuid
  have hfront := (emits_front hfull h hp haddress).append hitems (by rw [hstart, Nat.zero_add])
  have hall := hfront.append (emits_back hp htotal)
    (by rw [← hstrings, hstart, Nat.zero_add]; exact List.length_append.symm)
  have hbytes : full.blobBytes v s.assemblyCpuid =
      (full.header v s.assemblyCpuid).toBytes ++ List.replicate (padding 8 v.headerSize) 0 ++ full.reservationMap ++
        full.structureBlock v ++ (full.stringTable v).toBytes := by
    simp only [BootInfo.blobBytes, BootInfo.blocks, List.append_assoc]
  rw [hbytes]
  exact hall

theorem mem_preamble {d : Directive} (h : d ∈ preamble) :
    d = .blank ∨ (∃ text, d = .comment text ∧ '*' ∉ text.toList) ∨ ∃ name n, d = .define name n ∧ IsSymbol name := by
  have hdefine (name : String) (n : Nat) (hname : IsSymbol name) :
      Directive.define name n = .blank ∨ (∃ text, Directive.define name n = .comment text ∧ '*' ∉ text.toList) ∨
        ∃ name' n', Directive.define name n = .define name' n' ∧ IsSymbol name' :=
    .inr (.inr ⟨name, n, rfl, hname⟩)
  simp only [preamble, List.map_cons, List.map_nil, List.cons_append, List.nil_append, List.mem_cons,
    List.not_mem_nil, or_false] at h
  rcases h with rfl | rfl | rfl | rfl | rfl | rfl | rfl | rfl
  · exact .inr (.inl ⟨_, rfl, by decide⟩)
  · exact .inl rfl
  · exact hdefine magicSymbol _ (by decide +kernel)
  · exact hdefine (tokenSymbol .beginNode) _ (by decide +kernel)
  · exact hdefine (tokenSymbol .endNode) _ (by decide +kernel)
  · exact hdefine (tokenSymbol .property) _ (by decide +kernel)
  · exact hdefine (tokenSymbol .finish) _ (by decide +kernel)
  · exact .inl rfl

theorem preamble_reads : ∀ d ∈ preamble, d.Reads := by
  intro d hd
  rcases mem_preamble hd with rfl | ⟨text, rfl, htext⟩ | ⟨name, n, rfl, hname⟩
  · exact ⟨nofun, trivial⟩
  · exact ⟨nofun, htext⟩
  · exact ⟨fun s hs => List.mem_singleton.1 hs ▸ hname, trivial⟩

theorem preamble_silent : ∀ d ∈ preamble, d.statement.IsSilent := by
  intro d hd
  rcases mem_preamble hd with rfl | ⟨text, rfl, -⟩ | ⟨name, n, rfl, -⟩
  · exact .inl rfl
  · exact .inl rfl
  · exact .inr ⟨name, n, rfl⟩

/-- The labels of the tree do not come into the way of the symbols of the parts. -/
theorem knows_of_labels {names : List String} {items : List Structure.Item} (hitems : ∀ i ∈ items, ItemWithin names i)
    (hnames : ∀ name ∈ names, name ∉ partSymbols symbolPrefix) (address place : Nat) (l : Layout) :
    Knows (symbolsOf address symbolPrefix l
      (Assembler.labelsFrom place ((items.flatMap ofItem).map Directive.statement))) symbolPrefix l := by
  refine knows_symbolsOf fun m hm => ?_
  obtain ⟨i, hi, hlabel⟩ := mem_itemSymbols (Assembler.mem_labelsFrom hm)
  exact hnames m.1 ((hitems i hi).labels m.1 hlabel)

theorem assemble_program (hp : IsSymbol s.symbolPrefix)
    (hlabels : ∀ name ∈ info.labelSymbols, IsSymbol name ∧ name ∉ partSymbols s.symbolPrefix) :
    Assembler.assemble address.toNat (text (program info v s (info.stringTable v)
      (Structure.items v.features (info.stringTable v).offset info.root))) =
        some ((info.reserveSelf v address).blobBytes v s.assemblyCpuid) := by
  generalize hfull : info.reserveSelf v address = full
  have hitems : ∀ i ∈ Structure.items v.features (info.stringTable v).offset info.root,
      ItemWithin info.labelSymbols i := items_within info.root
  have hknows := knows_of_labels hitems (fun name hname => (hlabels name hname).2) address.toNat
    (full.layout v).structureOffset (full.layout v)
  have hplace : (full.layout v).structureOffset % 8 = 0 % 8 := Layout.structureOffset_mod v _
  obtain ⟨labels, hstructure⟩ := emits_items hknows hitems (fun name hname => (hlabels name hname).1) hplace
  -- The labels of the items are those that the symbols were made of.
  obtain rfl := hstructure.labels
  rw [program_eq]
  exact Assembler.assemble_text preamble_reads preamble_silent (emits_body hfull hknows hp rfl hstructure)

end Blob

end Assembly

namespace BootInfo

theorem toAssembly_eq_ok_iff {info : BootInfo} {s : Settings} {text : String} :
    info.toAssembly s = .ok text ↔
      ∃ v, Version.ofNumber? s.version = some v ∧ info.Writable ∧ Structure.RecordsFit v.features info.root ∧
        text = Assembly.text (Assembly.program info v s (info.stringTable v)
          (Structure.items v.features (info.stringTable v).offset info.root)) := by
  unfold toAssembly
  refine ⟨fun h => ?_, fun h => ?_⟩
  · obtain ⟨v, hv, h⟩ := bind_eq_ok_iff.1 h
    obtain ⟨⟨table, items⟩, hflat, h⟩ := bind_eq_ok_iff.1 h
    obtain ⟨hrecords, rfl, rfl⟩ := Structure.flatten_eq_ok_iff.1 hflat
    obtain ⟨hversion, hwritable⟩ := checkedVersion_eq_ok_iff.1 hv
    obtain rfl := Except.ok.inj h
    exact ⟨v, hversion, hwritable, hrecords, rfl⟩
  · obtain ⟨v, hversion, hwritable, hrecords, htext⟩ := h
    have hflat : Structure.flatten v.features info.root = .ok (info.stringTable v, _) :=
      Structure.flatten_eq_ok_iff.2 ⟨hrecords, rfl, rfl⟩
    rw [htext]
    refine bind_eq_ok_iff.2 ⟨v, checkedVersion_eq_ok_iff.2 ⟨hversion, hwritable⟩, ?_⟩
    exact bind_eq_ok_iff.2 ⟨_, hflat, rfl⟩

end BootInfo

end DeviceTree
