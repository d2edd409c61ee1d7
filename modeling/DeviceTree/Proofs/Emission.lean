import DeviceTree.Assembly
import DeviceTree.Proofs.Lines

/-!
# What lines emit

Lines in a row emit the bytes of each, and have the labels of each (`Emits.append`): a statement takes as many bytes
as the pass for labels says (`Statement.size_eq`), so both passes have the same place for what follows. If some lines
emit bytes where labels are as these lines have them, a text of them assembles to those bytes (`assemble_text`).
-/

namespace DeviceTree.Assembler

open Assembly (Operand Directive)

variable {symbols : Symbols} {place : Nat}

/-! ## Statements in a row -/

theorem numberBytes_natCast (width n : Nat) : numberBytes width n = BigEndian.encode width n := by
  rw [numberBytes, ← Int.natCast_emod, Int.toNat_natCast]
  exact BigEndian.encode_congr width (Nat.mod_mod n _)

theorem value?_number (n : Nat) : Amount.value? symbols ⟨.number n, []⟩ = some (n : Int) := by
  simp [Amount.value?, Term.value?]

theorem length_numbers {width : Nat} {amounts : List Amount} {ns : List Int}
    (h : amounts.mapM (Amount.value? symbols) = some ns) :
    (ns.flatMap (numberBytes width)).length = width * amounts.length := by
  induction amounts generalizing ns with
  | nil =>
    obtain rfl := Option.some.inj h
    rfl
  | cons a amounts ih =>
    rw [List.mapM_cons] at h
    obtain ⟨n, -, h⟩ := Option.bind_eq_some_iff.1 h
    obtain ⟨ns, hns, h⟩ := Option.bind_eq_some_iff.1 h
    obtain rfl := Option.some.inj h
    rw [List.flatMap_cons, List.length_append, ih hns, numberBytes, BigEndian.length_encode, List.length_cons,
      Nat.mul_succ, Nat.add_comm]

theorem Statement.size_eq {s : Statement} {bs : Bytes} (h : s.bytes? symbols place = some bs) :
    s.size place = bs.length := by
  cases s with
  | numbers width amounts =>
    obtain ⟨ns, hns, h⟩ := Option.bind_eq_some_iff.1 h
    obtain rfl := Option.some.inj h
    exact (length_numbers hns).symm
  | align boundary =>
    obtain rfl := Option.some.inj h
    exact List.length_replicate.symm
  | nothing | define _ _ | label _ | data _ =>
    obtain rfl := Option.some.inj h
    rfl

theorem labelsFrom_cons (place : Nat) (s : Statement) (ss : List Statement) :
    labelsFrom place (s :: ss) = labelsFrom place [s] ++ labelsFrom (place + s.size place) ss := by
  cases s <;> rfl

theorem bytesFrom?_append {xs ys : List Statement} {bs bs' : Bytes} (h : bytesFrom? symbols place xs = some bs)
    (h' : bytesFrom? symbols (place + bs.length) ys = some bs') :
    bytesFrom? symbols place (xs ++ ys) = some (bs ++ bs') := by
  induction xs generalizing place bs with
  | nil =>
    obtain rfl := Option.some.inj h
    exact h'
  | cons x xs ih =>
    obtain ⟨front, hfront, h⟩ := Option.bind_eq_some_iff.1 h
    obtain ⟨rest, hrest, h⟩ := Option.bind_eq_some_iff.1 h
    obtain rfl := Option.some.inj h
    rw [List.length_append, ← Nat.add_assoc] at h'
    simp only [List.cons_append, bytesFrom?, hfront, ih hrest h', Option.bind_eq_bind, Option.bind_some,
      Option.pure_def, List.append_assoc]

theorem labelsFrom_append {xs : List Statement} {bs : Bytes} (h : bytesFrom? symbols place xs = some bs)
    (ys : List Statement) :
    labelsFrom place (xs ++ ys) = labelsFrom place xs ++ labelsFrom (place + bs.length) ys := by
  induction xs generalizing place bs with
  | nil =>
    obtain rfl := Option.some.inj h
    rfl
  | cons x xs ih =>
    obtain ⟨front, hfront, h⟩ := Option.bind_eq_some_iff.1 h
    obtain ⟨rest, hrest, h⟩ := Option.bind_eq_some_iff.1 h
    obtain rfl := Option.some.inj h
    rw [List.cons_append, labelsFrom_cons, labelsFrom_cons place x xs, Statement.size_eq hfront, ih hrest,
      List.append_assoc, List.length_append, Nat.add_assoc]

/-- A label is where some statement defines it. -/
theorem mem_labelsFrom {name : String} {n : Nat} {ss : List Statement} (h : (name, n) ∈ labelsFrom place ss) :
    .label name ∈ ss := by
  induction ss generalizing place with
  | nil => cases h
  | cons s ss ih =>
    rw [labelsFrom_cons] at h
    rcases List.mem_append.1 h with h | h
    · cases s with
      | label other =>
        obtain ⟨rfl, -⟩ := Prod.mk.inj (List.mem_singleton.1 h)
        exact List.mem_cons_self
      | nothing | define _ _ | numbers _ _ | data _ | align _ => cases h
    · exact List.mem_cons_of_mem s (ih h)

/-! ## Lines in a row -/

/-- The lines are read, and at their place they emit these bytes and have these labels. They define no numbers. -/
structure Emits (symbols : Symbols) (place : Nat) (ds : List Directive) (bs : Bytes)
    (labels : List (String × Nat)) : Prop where
  reads : ∀ d ∈ ds, d.Reads
  bytes : bytesFrom? symbols place (ds.map Directive.statement) = some bs
  labels : labelsFrom place (ds.map Directive.statement) = labels
  defined : (ds.map Directive.statement).filterMap Statement.defined? = []

theorem Emits.nil : Emits symbols place [] [] [] :=
  ⟨nofun, rfl, rfl, rfl⟩

theorem Emits.append {place' : Nat} {ds ds' : List Directive} {bs bs' : Bytes} {labels labels' : List (String × Nat)}
    (h : Emits symbols place ds bs labels) (h' : Emits symbols place' ds' bs' labels')
    (hplace : place' = place + bs.length) : Emits symbols place (ds ++ ds') (bs ++ bs') (labels ++ labels') := by
  obtain ⟨hreads, hbytes, hlabels, hdefined⟩ := h
  obtain ⟨hreads', hbytes', hlabels', hdefined'⟩ := h'
  subst hplace
  refine ⟨fun d hd => (List.mem_append.1 hd).elim (hreads d) (hreads' d), ?_, ?_, ?_⟩
  · rw [List.map_append, bytesFrom?_append hbytes hbytes']
  · rw [List.map_append, labelsFrom_append hbytes, hlabels, hlabels']
  · rw [List.map_append, List.filterMap_append, hdefined, hdefined', List.append_nil]

/-- A line that is no label. -/
theorem Emits.line {d : Directive} {bs : Bytes} (hreads : d.Reads)
    (hbytes : d.statement.bytes? symbols place = some bs) (hlabels : labelsFrom place [d.statement] = [])
    (hdefined : d.statement.defined? = none) :
    Emits symbols place [d] bs [] := by
  refine ⟨fun d' hd' => List.mem_singleton.1 hd' ▸ hreads, ?_, hlabels, ?_⟩
  · simp only [List.map_cons, List.map_nil, bytesFrom?, hbytes, Option.bind_eq_bind, Option.bind_some,
      Option.pure_def, List.append_nil]
  · rw [List.map_singleton, List.filterMap_cons_none hdefined, List.filterMap_nil]

/-- A number of 32 bits. -/
theorem Emits.long {o : Operand} {remark : String} (hsymbols : ∀ s ∈ o.symbols, IsSymbol s)
    (hremark : (Directive.long o remark).RemarkEnds) {n : Int} (hvalue : o.amount.value? symbols = some n) :
    Emits symbols place [.long o remark] (numberBytes 4 n) [] := by
  refine .line ⟨hsymbols, hremark⟩ ?_ rfl rfl
  simp [Directive.statement, Statement.bytes?, hvalue]

theorem Emits.decimal (n : Nat) {remark : String} (hremark : (Directive.long (.decimal n) remark).RemarkEnds) :
    Emits symbols place [.long (.decimal n) remark] (BigEndian.encode 4 n) [] := by
  have hsymbols : ∀ s ∈ (Operand.decimal n).symbols, IsSymbol s := nofun
  rw [← numberBytes_natCast]
  exact .long hsymbols hremark (value?_number n)

theorem Emits.hex (n : Nat) {remark : String} (hremark : (Directive.long (.hex n) remark).RemarkEnds) :
    Emits symbols place [.long (.hex n) remark] (BigEndian.encode 4 n) [] := by
  have hsymbols : ∀ s ∈ (Operand.hex n).symbols, IsSymbol s := nofun
  rw [← numberBytes_natCast]
  exact .long hsymbols hremark (value?_number n)

/-- Numbers of 64 bits. -/
theorem Emits.quad {operands : List Operand} (hne : operands ≠ [])
    (hsymbols : ∀ s ∈ operands.flatMap Operand.symbols, IsSymbol s) {ns : List Int}
    (hvalues : (operands.map Operand.amount).mapM (Amount.value? symbols) = some ns) :
    Emits symbols place [.quad operands] (ns.flatMap (numberBytes 8)) [] := by
  refine .line ⟨hsymbols, hne⟩ ?_ rfl rfl
  simp [Directive.statement, Statement.bytes?, hvalues]

theorem Emits.string (s : String) : Emits symbols place [.string s] (Utf8.encode s ++ [0]) [] :=
  .line ⟨nofun, trivial⟩ rfl rfl rfl

theorem Emits.balign (boundary : Nat) :
    Emits symbols place [.balign boundary] (List.replicate (padding boundary place) 0) [] :=
  .line ⟨nofun, trivial⟩ rfl rfl rfl

theorem Emits.comment {text : String} (h : '*' ∉ text.toList) : Emits symbols place [.comment text] [] [] :=
  .line ⟨nofun, h⟩ rfl rfl rfl

theorem Emits.label {name : String} (h : IsSymbol name) : Emits symbols place [.label name] [] [(name, place)] := by
  have hreads : (Directive.label name).Reads := ⟨fun s hs => List.mem_singleton.1 hs ▸ h, trivial⟩
  exact ⟨fun d hd => List.mem_singleton.1 hd ▸ hreads, rfl, rfl, rfl⟩

theorem Emits.exported {name : String} (h : IsSymbol name) :
    Emits symbols place (Assembly.exported name) [] [(name, place)] := by
  have hglobal : Emits symbols place [.global name] [] [] :=
    .line ⟨fun s hs => List.mem_singleton.1 hs ▸ h, trivial⟩ rfl rfl rfl
  exact hglobal.append (Emits.label h) rfl

/-- Bytes come out as they are, however they are put together to numbers. -/
theorem Emits.ofBytes (bs : Bytes) : Emits symbols place (Assembly.ofBytes bs) bs [] := by
  have hnumber (bs : Bytes) : numberBytes bs.length (BigEndian.value bs : Nat) = bs := by
    rw [numberBytes_natCast, BigEndian.encode_value]
  have hhex (n : Nat) : ∀ s ∈ (Operand.hex n).symbols, IsSymbol s := nofun
  have hshort (a b : UInt8) (place : Nat) :
      Emits symbols place [.short (.hex (BigEndian.value [a, b]))] [a, b] [] := by
    have hpair := hnumber [a, b]
    refine .line ⟨hhex (BigEndian.value [a, b]), trivial⟩ ?_ rfl rfl
    simpa [Directive.statement, Statement.bytes?, Operand.amount, value?_number] using hpair
  have hbyte (a : UInt8) (place : Nat) : Emits symbols place [.byte (.hex a.toNat)] [a] [] := by
    have hone := hnumber [a]
    rw [BigEndian.value_cons] at hone
    refine .line ⟨hhex a.toNat, trivial⟩ ?_ rfl rfl
    simpa [Directive.statement, Statement.bytes?, Operand.amount, value?_number, BigEndian.value, BigEndian.limit]
      using hone
  induction bs using Assembly.ofBytes.induct generalizing place with
  | case1 a b c d rest ih =>
    have hlong : Emits symbols place [.long (.hex (BigEndian.value [a, b, c, d])) ""]
        (BigEndian.encode [a, b, c, d].length (BigEndian.value [a, b, c, d])) [] := .hex _ (.inl rfl)
    rw [BigEndian.encode_value] at hlong
    exact hlong.append ih rfl
  | case2 a b c => exact (hshort a b place).append (hbyte c (place + 2)) rfl
  | case3 a b => exact hshort a b place
  | case4 a => exact hbyte a place
  | case5 => exact .nil

theorem Emits.strings (names : List String) :
    Emits symbols place (names.map .string) (names.flatMap fun name => Utf8.encode name ++ [0]) [] := by
  induction names generalizing place with
  | nil => exact .nil
  | cons name names ih => exact (Emits.string name).append ih rfl

/-! ## A whole text -/

/-- What emits nothing and is no label. -/
def Statement.IsSilent (s : Statement) : Prop :=
  s = .nothing ∨ ∃ name n, s = .define name n

theorem bytesFrom?_silent {front : List Statement} (h : ∀ s ∈ front, s.IsSilent) (ss : List Statement) :
    bytesFrom? symbols place (front ++ ss) = bytesFrom? symbols place ss := by
  induction front with
  | nil => rfl
  | cons s front ih =>
    obtain ⟨hs, hfront⟩ := List.forall_mem_cons.1 h
    have hempty : s.bytes? symbols place = some [] := by
      rcases hs with rfl | ⟨name, n, rfl⟩ <;> rfl
    simp only [List.cons_append, bytesFrom?, hempty, Option.bind_eq_bind, Option.bind_some, List.length_nil,
      Nat.add_zero, ih hfront, List.nil_append, Option.pure_def, Option.bind_fun_some]

theorem labelsFrom_silent {front : List Statement} (h : ∀ s ∈ front, s.IsSilent) (ss : List Statement) :
    labelsFrom place (front ++ ss) = labelsFrom place ss := by
  induction front with
  | nil => rfl
  | cons s front ih =>
    obtain ⟨hs, hfront⟩ := List.forall_mem_cons.1 h
    rw [List.cons_append, ← ih hfront]
    rcases hs with rfl | ⟨name, n, rfl⟩ <;> rfl

/-- Lines that emit bytes where the labels are as they have them, behind lines that emit nothing but may define
numbers. -/
theorem assemble_text {address : Nat} {front ds : List Directive} {bs : Bytes} {labels : List (String × Nat)}
    (hreads : ∀ d ∈ front, d.Reads)
    (hfront : ∀ d ∈ front, d.statement.IsSilent)
    (h : Emits ⟨address, (front.map Directive.statement).filterMap Statement.defined?, labels⟩ 0 ds bs labels) :
    assemble address (Assembly.text (front ++ ds)) = some bs := by
  obtain ⟨hreads', hbytes, hlabels, hdefined⟩ := h
  have hstatements := statements?_text fun d hd => (List.mem_append.1 hd).elim (hreads d) (hreads' d)
  have hsilent : ∀ s ∈ front.map Directive.statement, s.IsSilent := by
    intro s hs
    obtain ⟨d, hd, rfl⟩ := List.mem_map.1 hs
    exact hfront d hd
  -- The line behind the last one emits nothing.
  have hall := bytesFrom?_append hbytes (rfl : bytesFrom? _ _ [.nothing] = some [])
  have hallLabels := labelsFrom_append hbytes [.nothing]
  have hlast : labelsFrom (0 + bs.length) [.nothing] = [] := rfl
  have hnumbers : [Statement.nothing].filterMap Statement.defined? = [] := rfl
  rw [hlabels, hlast, List.append_nil] at hallLabels
  rw [assemble, hstatements]
  simp only [Option.bind_eq_bind, Option.bind_some, List.map_append, List.append_assoc, List.filterMap_append,
    hdefined, hnumbers, List.append_nil, bytesFrom?_silent hsilent, labelsFrom_silent hsilent, hallLabels, hall]

end DeviceTree.Assembler
