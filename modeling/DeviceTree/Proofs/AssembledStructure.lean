import DeviceTree.Proofs.Flatten
import DeviceTree.Proofs.PartSymbols

/-!
# The structure block as an assembler emits it

The lines of an item emit the bytes of the item (`emits_ofItem`), and so do the lines of a whole run (`emits_items`),
at any place that is the same modulo eight: nothing in the block is aligned to more. The labels among the lines are
those of the tree (`items_within`, `mem_itemSymbols`).
-/

namespace DeviceTree

open Assembler (IsSymbol Emits)
open BigEndian (word32)

/-- The symbols that the labels of a node and of its properties define. -/
def Node.labelSymbols (n : Node) : List String :=
  n.label.toList ++ (n.label.map (· ++ "_end")).toList ++ n.properties.filterMap Property.label

namespace BootInfo

/-- The symbols that the labels of a tree define. -/
def labelSymbols (info : BootInfo) : List String :=
  info.root.preorder.flatMap Node.labelSymbols

end BootInfo

namespace Assembly

/-! ## The structure block -/

/-- The symbols that the labels of an item define. -/
def itemSymbols : Structure.Item → List String
  | .beginNode l | .property l => l.toList
  | .endNode l => (l.map (· ++ "_end")).toList
  | _ => []

/-- An item defines no other symbols, and what it aligns to divides eight. -/
structure ItemWithin (symbols : List String) (i : Structure.Item) : Prop where
  labels : ∀ s ∈ itemSymbols i, s ∈ symbols
  boundary : ∀ boundary, i = .align boundary → boundary ∣ 8

theorem itemWithin_of_plain {symbols : List String} {i : Structure.Item} (hlabels : itemSymbols i = [])
    (hboundary : ∀ boundary, i = .align boundary → boundary = 4 ∨ boundary = 8) : ItemWithin symbols i := by
  refine ⟨fun s hs => ?_, fun boundary hi => ?_⟩
  · rw [hlabels] at hs
    cases hs
  · rcases hboundary boundary hi with rfl | rfl <;> decide

section Items

variable {f : Features} {offset : String → Nat}

theorem valueAlignment_within {symbols : List String} (size : Nat) :
    ∀ i ∈ Structure.valueAlignment f size, ItemWithin symbols i := by
  intro i hi
  unfold Structure.valueAlignment at hi
  split at hi
  · obtain rfl := List.mem_singleton.1 hi
    exact itemWithin_of_plain rfl fun boundary h => .inr (Structure.Item.align.inj h).symm
  · cases hi

theorem recordItems_within {symbols : List String} {label : Option String} (hlabel : ∀ s ∈ label.toList, s ∈ symbols)
    {value : Structure.Item} (hvalue : (∃ bs, value = .data bs) ∨ ∃ s, value = .text s) (size offset : Nat) :
    ∀ i ∈ [.property label, .word size, .word offset] ++ Structure.valueAlignment f size ++ [value, .align 4],
      ItemWithin symbols i := by
  have hplain : ItemWithin symbols value := by
    rcases hvalue with ⟨bs, rfl⟩ | ⟨s, rfl⟩ <;> exact itemWithin_of_plain rfl nofun
  have hword (n : Nat) : ItemWithin symbols (.word n) := itemWithin_of_plain rfl nofun
  have halign : ItemWithin symbols (.align 4) :=
    itemWithin_of_plain rfl fun boundary h => .inl (Structure.Item.align.inj h).symm
  simp only [List.forall_mem_append, List.forall_mem_cons, hplain, hword, halign, true_and]
  exact ⟨⟨⟨⟨hlabel, nofun⟩, nofun⟩, valueAlignment_within size⟩, nofun⟩

theorem headItems_within (n : Node) : ∀ i ∈ Structure.headItems f offset n, ItemWithin n.labelSymbols i := by
  have hproperty : ∀ p ∈ n.properties, ∀ i ∈ Structure.propertyItems f offset p, ItemWithin n.labelSymbols i := by
    intro p hp
    refine recordItems_within (fun s hs => ?_) (.inl ⟨p.value, rfl⟩) p.value.length (offset p.name)
    exact List.mem_append_right _ (List.mem_filterMap.2 ⟨p, hp, Option.mem_toList.1 hs⟩)
  have hbase : ∀ i ∈ Structure.baseNameItems f offset n, ItemWithin n.labelSymbols i := by
    unfold Structure.baseNameItems
    dsimp only
    split
    · have hnone : ∀ s ∈ (none : Option String).toList, s ∈ n.labelSymbols := nofun
      exact recordItems_within hnone (.inr ⟨n.baseName, rfl⟩) _ _
    · exact nofun
  have halign : ItemWithin n.labelSymbols (.align 4) :=
    itemWithin_of_plain rfl fun boundary h => .inl (Structure.Item.align.inj h).symm
  have htext (s : String) : ItemWithin n.labelSymbols (.text s) := itemWithin_of_plain rfl nofun
  have hbegin : ItemWithin n.labelSymbols (.beginNode n.label) :=
    ⟨fun s hs => List.mem_append_left _ (List.mem_append_left _ hs), nofun⟩
  unfold Structure.headItems
  simp only [List.forall_mem_append, List.forall_mem_cons, hbegin, htext, halign, true_and]
  refine ⟨⟨nofun, fun i hi => ?_⟩, hbase⟩
  obtain ⟨p, hp, hi⟩ := List.mem_flatMap.1 hi
  exact hproperty p hp i hi

theorem ItemWithin.mono {symbols symbols' : List String} {i : Structure.Item} (h : ItemWithin symbols i)
    (hsub : ∀ s ∈ symbols, s ∈ symbols') : ItemWithin symbols' i :=
  ⟨fun s hs => hsub s (h.labels s hs), h.boundary⟩

theorem nodeItems_within (n : Node) :
    ∀ i ∈ Structure.nodeItems f offset n, ItemWithin (n.preorder.flatMap Node.labelSymbols) i := by
  induction n using Node.induction with
  | step n ih =>
    have hown : ∀ s ∈ n.labelSymbols, s ∈ n.preorder.flatMap Node.labelSymbols :=
      fun s hs => List.mem_flatMap.2 ⟨n, n.mem_preorder_self, hs⟩
    have hend : ItemWithin n.labelSymbols (.endNode n.label) :=
      ⟨fun s hs => List.mem_append_left _ (List.mem_append_right _ hs), nofun⟩
    rw [Structure.nodeItems_eq]
    simp only [List.forall_mem_append, List.forall_mem_cons, List.mem_flatMap]
    refine ⟨⟨fun i hi => (headItems_within n i hi).mono hown, ?_⟩, hend.mono hown, nofun⟩
    intro i hi
    obtain ⟨c, hc, hi⟩ := hi
    refine (ih c hc i hi).mono fun s hs => ?_
    obtain ⟨m, hm, hs⟩ := List.mem_flatMap.1 hs
    exact List.mem_flatMap.2 ⟨m, Node.mem_preorder_of_child hc hm, hs⟩

theorem items_within (root : Node) :
    ∀ i ∈ Structure.items f offset root, ItemWithin (root.preorder.flatMap Node.labelSymbols) i := by
  rw [Structure.items, List.forall_mem_append, List.forall_mem_singleton]
  exact ⟨nodeItems_within root, itemWithin_of_plain rfl nofun⟩

end Items

variable {symbols : Assembler.Symbols} {symbolPrefix : String} {l : Layout} {place : Nat}

/-- A number that is written as the symbol for it. -/
theorem emits_constant (h : Knows symbols symbolPrefix l) {name : String} {w : UInt32}
    (hconstant : (name, w.toNat) ∈ constants) {remark : String}
    (hremark : (Directive.long (.symbol name) remark).RemarkEnds) :
    Emits symbols place [.long (.symbol name) remark] (word32 w) [] := by
  have hall : ∀ c ∈ constants, IsSymbol c.1 := by decide +kernel
  have hsymbols : ∀ s ∈ (Operand.symbol name).symbols, IsSymbol s :=
    fun s hs => List.mem_singleton.1 hs ▸ hall _ hconstant
  have hvalue : (Operand.symbol name).amount.value? symbols = some (w.toNat : Int) := by
    simp [Operand.amount, Assembler.Amount.value?, Assembler.Term.value?, h.constant _ hconstant]
  rw [word32, ← Assembler.numberBytes_natCast]
  exact .long hsymbols hremark hvalue

theorem emits_ofToken (h : Knows symbols symbolPrefix l) (t : Token) :
    Emits symbols place (ofToken t) (word32 t.word) [] := by
  have hconstant : (tokenSymbol t, t.word.toNat) ∈ constants := by
    cases t <;> decide +kernel
  exact emits_constant h hconstant (.inl rfl)

/-- Padding is the same at places that are the same modulo eight. -/
theorem padding_congr {boundary m n : Nat} (hboundary : boundary ∣ 8) (h : m % 8 = n % 8) :
    padding boundary m = padding boundary n := by
  rw [padding, padding, ← Nat.mod_mod_of_dvd m hboundary, h, Nat.mod_mod_of_dvd n hboundary]

/-- The lines of an optional label. -/
theorem emits_exported {label : Option String} (h : ∀ s ∈ label.toList, IsSymbol s) :
    ∃ labels, Emits symbols place ((label.map exported).getD []) [] labels := by
  cases label with
  | none => exact ⟨[], .nil⟩
  | some name => exact ⟨_, .exported (h name List.mem_cons_self)⟩

theorem ofItem_endNode (label : Option String) :
    ofItem (.endNode label) = ofToken .endNode ++ ((label.map (· ++ "_end")).map exported).getD [] := by
  cases label <;> rfl

theorem emits_ofItem (h : Knows symbols symbolPrefix l) {i : Structure.Item}
    (hsymbols : ∀ s ∈ itemSymbols i, IsSymbol s) (hboundary : ∀ boundary, i = .align boundary → boundary ∣ 8)
    {pos : Nat} (hpos : place % 8 = pos % 8) :
    ∃ labels, Emits symbols place (ofItem i) (i.bytesAt pos) labels := by
  cases i with
  | beginNode label =>
    obtain ⟨labels, hlabel⟩ := emits_exported hsymbols
    exact ⟨_, hlabel.append (emits_ofToken h .beginNode) rfl⟩
  | endNode label =>
    obtain ⟨labels, hlabel⟩ := emits_exported hsymbols
    rw [ofItem_endNode]
    exact ⟨_, (emits_ofToken h .endNode).append hlabel rfl⟩
  | property label =>
    obtain ⟨labels, hlabel⟩ := emits_exported hsymbols
    exact ⟨_, hlabel.append (emits_ofToken h .property) rfl⟩
  | finish => exact ⟨_, emits_ofToken h .finish⟩
  | word n => exact ⟨_, .hex n (.inl rfl)⟩
  | text s => exact ⟨_, .string s⟩
  | data bs => exact ⟨_, .ofBytes bs⟩
  | align boundary =>
    have halign : Emits symbols place [.balign boundary] _ [] := .balign boundary
    rw [padding_congr (hboundary boundary rfl) hpos] at halign
    exact ⟨_, halign⟩

/-- The structure block, at a place that alignment in it cannot tell from its start. -/
theorem emits_items (h : Knows symbols symbolPrefix l) {names : List String} {items : List Structure.Item}
    (hitems : ∀ i ∈ items, ItemWithin names i) (hnames : ∀ s ∈ names, IsSymbol s) {pos : Nat}
    (hpos : place % 8 = pos % 8) :
    ∃ labels, Emits symbols place (items.flatMap ofItem) (Structure.bytesFrom pos items) labels := by
  induction items generalizing place pos with
  | nil => exact ⟨[], .nil⟩
  | cons i items ih =>
    obtain ⟨hi, hitems⟩ := List.forall_mem_cons.1 hitems
    obtain ⟨labels, hfirst⟩ := emits_ofItem h (fun s hs => hnames s (hi.labels s hs)) hi.boundary hpos
    have hnext : (place + (i.bytesAt pos).length) % 8 = (pos + (i.bytesAt pos).length) % 8 := by omega
    obtain ⟨labels', hrest⟩ := ih hitems hnext
    exact ⟨labels ++ labels', hfirst.append hrest rfl⟩

theorem label_notMem_ofBytes {name : String} (bs : Bytes) :
    .label name ∉ (ofBytes bs).map Directive.statement := by
  induction bs using ofBytes.induct <;> simp [ofBytes, Directive.statement, *]

/-- The labels that lines of items have are those of the items. -/
theorem mem_itemSymbols {items : List Structure.Item} {name : String}
    (h : .label name ∈ (items.flatMap ofItem).map Directive.statement) : ∃ i ∈ items, name ∈ itemSymbols i := by
  rw [List.map_flatMap] at h
  obtain ⟨i, hi, h⟩ := List.mem_flatMap.1 h
  refine ⟨i, hi, ?_⟩
  have hexported (label : Option String) (h : .label name ∈ ((label.map exported).getD []).map Directive.statement) :
      name ∈ label.toList := by
    cases label with
    | none => cases h
    | some other => simpa [exported, Directive.statement] using h
  cases i with
  | beginNode label | property label =>
    rw [ofItem, List.map_append] at h
    rcases List.mem_append.1 h with h | h
    · exact hexported label h
    · simp [ofToken, Directive.statement] at h
  | endNode label =>
    rw [ofItem_endNode, List.map_append] at h
    rcases List.mem_append.1 h with h | h
    · simp [ofToken, Directive.statement] at h
    · exact hexported (label.map (· ++ "_end")) h
  | data bs => exact absurd h (label_notMem_ofBytes bs)
  | finish | word _ | text _ | align _ => simp [ofItem, ofToken, Directive.statement] at h

end Assembly

end DeviceTree
