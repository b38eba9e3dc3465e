import DataTree.Proofs.Keys.Lists

/-!
# DataTree.Proofs.Keys.Session

How the keys of a list and the key leaves of its entries agree, after any entries were
added and deleted (`keys_agree_of_reaches`).

A key leaf reads as what its type makes of its part of the key.  So a key is the texts of
the key leaves, joined by spaces, exactly if the types of the leaves keep all its parts.
Entries whose keys are kept like that differ in what their key leaves read.  But an entry
that was added as `05` to a list of numbers reads as the one of the key `5`.
-/

namespace DataTree

open Edit Outcome

namespace ListSchema

variable {s : ListSchema Schema} {field path key : String}

/-- No key leaf displaces another one. -/
def Settled (s : ListSchema Schema) : Prop := s.key.fields.Pairwise fun f g => ¬ s.Displaces g f

/-- Every part of the key is kept by the type of its leaf. -/
def KeepsKey (s : ListSchema Schema) (path key : String) : Prop :=
  ∃ parts, s.key.split path key = .ok parts ∧
    ∀ q ∈ s.key.fields.zip parts, ∃ type, s.KeyType q.1 type ∧ type.Keeps q.2

end ListSchema

namespace Tree

variable {t₀ t : Tree} {id c leaf : ElementId} {e ce : Element} {l : KeyedList} {schema : Schema}
  {node : ElementId → Schema} {spec : ElementSpec} {s : ListSchema Schema} {field part : String}
  {fields parts : List String}

/-! ## Reading key leaves -/

/-- What a field of an entry reads. -/
def fieldValue (t : Tree) (c : ElementId) (field : String) : Option Value := do
  let e ← t.element? c
  let leaf ← e.child? field
  (t.value leaf).toOption

/-- What the key leaves of an entry read. -/
def keyValues (t : Tree) (c : ElementId) (k : KeySpec) : Option (List Value) :=
  k.fields.mapM (t.fieldValue c)

/-- Their texts, joined by single spaces. -/
def keyText (t : Tree) (c : ElementId) (k : KeySpec) : Option String :=
  (t.keyValues c k).map fun values => " ".intercalate (values.map Value.toText)

/-- A leaf reads as the value it holds, unless that is a pointer. -/
theorem value_of_held {slot : LeafSlot} {v : LeafValue} (h : t.held leaf = some (.leaf slot))
    (hv : slot.value = some v) (hplain : v.IsPlain) : t.value leaf = .ok v.toValue := by
  obtain ⟨e, he, hc⟩ := held_eq_some_iff.1 h
  have hel : t.element leaf = .ok e := element_eq_ok_iff.2 he
  rw [value, snapshot, snapshotFrom, bind_eq_ok]
  refine ⟨e, hel, ?_⟩
  simp only [hc, hv]
  split
  · next path heq => exact absurd (Option.some.inj heq) (hplain.2 path)
  · next w _ heq =>
    obtain rfl := Option.some.inj heq
    rw [hplain.1]
    rfl
  · next heq => cases heq

/-- The setter of a container leads to the child of the name, if that is there. -/
theorem Sound.child?_of_setter (h : Sound t ∅) (hce : t.element? c = some ce)
    (hcont : ce.content = .container) (hget : Assoc.get? field ce.setters = some leaf)
    (hleaf : (t.element? leaf).isSome) : ce.child? field = some leaf := by
  obtain ⟨le, hle⟩ := Option.isSome_iff_exists.1 hleaf
  obtain ⟨hpar, hname⟩ := (h.setter hce (Assoc.mem_of_get?_eq_some hget)).2 le hle
  obtain ⟨ce', hce', hbelow⟩ := h.listed hle hpar (Set.notMem_empty leaf)
  obtain rfl : ce = ce' := Option.some.inj (hce.symm.trans hce')
  obtain ⟨name, hm⟩ | ⟨l, key, hl, -⟩ := Element.mem_below hbelow
  · obtain ⟨-, -, le', hle', -, hname', -⟩ := h.child hce hm
    obtain rfl : le = le' := Option.some.inj (hle.symm.trans hle')
    obtain rfl : name = field := hname'.symm.trans hname
    exact Assoc.get?_eq_some_of_mem (h.names hce) hm
  · rw [hcont] at hl
    cases hl

/-- What a key leaf reads is what its type makes of its part. -/
theorem Takes.fieldValue_eq (h : t.Takes c field part) (hs : Sound t ∅) (hf : t.Follows schema node)
    (hnode : node c = .ofEntry s) (hce : t.element? c = some ce) (hcont : ce.content = .container) :
    ∃ type v, s.KeyType field type ∧ type.construct (.text part) = .ok (some v) ∧
      t.fieldValue c field = some v.toValue := by
  obtain ⟨ce', leaf, slot, v, hce', hget, hheld, hv, hconstruct⟩ := h
  obtain rfl : ce = ce' := Option.some.inj (hce.symm.trans hce')
  obtain ⟨le, hle, hslot⟩ := held_eq_some_iff.1 hheld
  obtain ⟨default, hleaf⟩ := hf.type_eq hle hslot
  obtain ⟨-, case, hdecl⟩ := hf.setter hce (Assoc.mem_of_get?_eq_some hget)
  rw [hnode, hleaf] at hdecl
  obtain ⟨w, hw, hplain⟩ := LeafType.isPlain_of_construct rfl hconstruct
  obtain rfl := Option.some.inj hw
  refine ⟨slot.type, v, ⟨case, default, hdecl⟩, hconstruct, ?_⟩
  have hchild := hs.child?_of_setter hce hcont hget (by rw [hle]; rfl)
  simp [fieldValue, hce, hchild, value_of_held hheld hv hplain, Except.toOption]

/-- If every field reads as what its type makes of its part, the fields read as the parts
exactly if the types keep these. -/
theorem exists_values {read : String → Option Value} (hd : Schema.DistinctChildren s.entry)
    (hlen : fields.length = parts.length)
    (h : ∀ q ∈ fields.zip parts, ∃ type v, s.KeyType q.1 type ∧
      type.construct (.text q.2) = .ok (some v) ∧ read q.1 = some v.toValue) :
    ∃ values, fields.mapM read = some values ∧ values.length = parts.length ∧
      (values.map Value.toText = parts ↔
        ∀ q ∈ fields.zip parts, ∃ type, s.KeyType q.1 type ∧ type.Keeps q.2) := by
  induction fields generalizing parts with
  | nil =>
    obtain rfl := List.length_eq_zero_iff.1 hlen.symm
    exact ⟨[], rfl, rfl, by simp⟩
  | cons field fields ih =>
    cases parts with
    | nil => cases hlen
    | cons part parts =>
      rw [List.zip_cons_cons] at h ⊢
      obtain ⟨values, hread, hvlen, hiff⟩ := ih (Nat.succ.inj hlen) fun q hq =>
        h q (List.mem_cons_of_mem _ hq)
      obtain ⟨type, v, htype, hconstruct, hv⟩ := h _ List.mem_cons_self
      refine ⟨v.toValue :: values, ?_, by simp [hvlen], ?_⟩
      · rw [List.mapM_cons, hv, hread]
        rfl
      · have hhead : v.toValue.toText = part ↔ ∃ type, s.KeyType field type ∧ type.Keeps part := by
          constructor
          · intro htext
            exact ⟨type, htype, v, hconstruct, htext⟩
          · intro hkeeps
            obtain ⟨type', htype', v', hconstruct', htext⟩ := hkeeps
            obtain rfl := htype.unique hd htype'
            obtain rfl := Option.some.inj (Except.ok.inj (hconstruct.symm.trans hconstruct'))
            exact htext
        rw [List.map_cons, List.cons_eq_cons, hiff, hhead, List.forall_mem_cons]

/-! ## Adding and deleting -/

/-- Nothing but adding entries to the list `id` and deleting entries of it. -/
def Listing (id : ElementId) (_ : Tree) : Operation → Prop
  | .add id' _ | .delete id' _ => id' = id
  | _ => False

/-- The tree follows the schema, where `id` is a list of the schema `s`, and the keys of this
list hold. -/
structure Lists (t : Tree) (schema : Schema) (s : ListSchema Schema) (id : ElementId) : Prop where
  sound : Sound t ∅
  keysHold : t.KeysHold id
  lt : id.index < t.slots.size
  follows : ∃ node default, t.Follows schema node ∧ node id = .list s default

theorem lists_addEntry (h : t.Lists schema s id) (hplain : s.PlainKeys)
    (hkeyed : s.key.isKeyless = false) (key : Option String) :
    (addEntry id key).Ensures t (fun _ t' => t'.Lists schema s id) fun _ t' =>
      t'.Lists schema s id := by
  obtain ⟨node, default, hf, hid⟩ := h.follows
  have hadd := ((sound_addEntry h.sound id key).and
    (keysHold_addEntry h.sound hf h.keysHold hid hplain hkeyed key)).and
      (follows_addEntry hf id key)
  refine hadd.mono (fun _ t' h' => ?_) fun _ t' h' => ?_
  · obtain ⟨⟨hs', hk'⟩, node', hext⟩ := h'
    exact ⟨hs', hk', Nat.lt_of_lt_of_le h.lt hext.size_le, node', default, hext.follows,
      by rw [hext.node_eq h.lt, hid]⟩
  · obtain ⟨⟨hs', hk'⟩, node', hext⟩ := h'
    exact ⟨hs', hk', Nat.lt_of_lt_of_le h.lt hext.size_le, node', default, hext.follows,
      by rw [hext.node_eq h.lt, hid]⟩

/-- Every step of a session of adding and deleting keeps the keys of the list. -/
theorem lists_after {op : Operation} (h : t.Lists schema s id) (hplain : s.PlainKeys)
    (hkeyed : s.key.isKeyless = false) (hop : Listing id t op) :
    (op.after t).Lists schema s id := by
  cases op with
  | add id' key =>
    obtain rfl : id' = id := hop
    have htell : ∀ {t : Tree} (event : Event),
        t.Lists schema s id' → (t.tell event).Lists schema s id' := by
      intro t event h
      obtain ⟨node, default, hf, hid⟩ := h.follows
      exact ⟨h.sound.sameFrame (sameFrame_tell t event),
        h.keysHold.of_element h.sound (fun _ => rfl) rfl, h.lt, node, default, hf.of_slots rfl, hid⟩
    have hadd : Leads (Keeping (Lists · schema s id')) (Tree.add id' key) :=
      leads_add (fun event => htell event)
        (leads_keeping_iff.2 fun _ h => lists_addEntry h hplain hkeyed key)
    exact hadd t h
  | delete id' key =>
    obtain rfl : id' = id := hop
    obtain ⟨node, default, hf, hid⟩ := h.follows
    exact
      { sound := sound_delete id' key t h.sound
        keysHold := rel_of_ensures (R := fun _ t' => t'.KeysHold id')
          (keysHold_delete h.sound hf h.keysHold key)
        lt := Nat.lt_of_lt_of_le h.lt (ages_after (.delete id' key) t).size_le
        follows := ⟨node, default, rel_of_ensures (R := fun _ t' => t'.Follows schema node)
          (follows_delete h.sound hf id' key), hid⟩ }
  | _ => exact hop.elim

/-- How the keys of a list and the key leaves of its entries agree. -/
structure KeysAgree (t : Tree) (e : Element) (l : KeyedList) : Prop where
  /-- A key leaf reads as what its type makes of its part, unless a later key leaf displaces it. -/
  reads : ∀ {key c}, (key, c) ∈ l.members → ∃ parts, l.schema.key.split e.path key = .ok parts ∧
    ∀ before field part after, l.schema.key.fields.zip parts = before ++ (field, part) :: after →
      (∀ q ∈ after, ¬ l.schema.Displaces q.1 field) →
      ∃ type v, l.schema.KeyType field type ∧ type.construct (.text part) = .ok (some v) ∧
        t.fieldValue c field = some v.toValue
  /-- If none is displaced, a key is the texts of the key leaves joined by spaces exactly if the
  types of the leaves keep its parts, -/
  text_iff : l.schema.Settled → ∀ {key c}, (key, c) ∈ l.members →
    (t.keyText c l.schema.key = some key ↔ l.schema.KeepsKey e.path key)
  /-- and no two entries with such keys read the same in all key leaves. -/
  unique : l.schema.Settled → ∀ {key c key' c'}, (key, c) ∈ l.members → (key', c') ∈ l.members →
    l.schema.KeepsKey e.path key → l.schema.KeepsKey e.path key' →
    t.keyText c l.schema.key = t.keyText c' l.schema.key → key = key' ∧ c = c'

theorem Lists.keysAgree (h : t.Lists schema s id) (he : t.element? id = some e)
    (hl : e.content = .list l) : l.schema = s ∧ t.KeysAgree e l := by
  obtain ⟨node, default, hf, hid⟩ := h.follows
  obtain ⟨default', hid'⟩ := hf.schema_eq he hl
  have hreads : ∀ {key c}, (key, c) ∈ l.members →
      ∃ parts, l.schema.key.split e.path key = .ok parts ∧
      ∀ before field part after, l.schema.key.fields.zip parts = before ++ (field, part) :: after →
        (∀ q ∈ after, ¬ l.schema.Displaces q.1 field) →
        ∃ type v, l.schema.KeyType field type ∧ type.construct (.text part) = .ok (some v) ∧
          t.fieldValue c field = some v.toValue := by
    intro key c hm
    obtain ⟨parts, hsplit, hkeyed⟩ := h.keysHold he hl hm
    obtain ⟨-, ce, hce, hcont, -⟩ := h.sound.entry he hl hm
    obtain ⟨-, hnode, -⟩ := hf.entry he hl hm
    exact ⟨parts, hsplit, fun before field part after heq hafter =>
      (hkeyed before field part after heq hafter).fieldValue_eq h.sound hf hnode hce hcont⟩
  have htext : l.schema.Settled → ∀ {key c}, (key, c) ∈ l.members →
      (t.keyText c l.schema.key = some key ↔ l.schema.KeepsKey e.path key) := by
    intro hsettled key c hm
    obtain ⟨parts, hsplit, hread⟩ := hreads hm
    have hlen := KeySpec.length_of_split hsplit
    have hall : ∀ q ∈ l.schema.key.fields.zip parts, ∃ type v, l.schema.KeyType q.1 type ∧
        type.construct (.text q.2) = .ok (some v) ∧ t.fieldValue c q.1 = some v.toValue := by
      intro q hq
      obtain ⟨before, after, heq⟩ := List.append_of_mem hq
      refine hread before q.1 q.2 after heq fun q' hq' => ?_
      have hfields : l.schema.key.fields = before.map Prod.fst ++ q.1 :: after.map Prod.fst := by
        rw [← List.map_cons, ← List.map_append, ← heq, List.map_fst_zip (Nat.le_of_eq hlen.symm)]
      have hpairs := hsettled
      rw [ListSchema.Settled, hfields, List.pairwise_append, List.pairwise_cons] at hpairs
      exact hpairs.2.1.1 _ (List.mem_map_of_mem hq')
    obtain ⟨values, hvalues, hvlen, hiff⟩ := exists_values (h.sound.distinct he hl) hlen.symm hall
    have hkeyText : t.keyText c l.schema.key =
        some (" ".intercalate (values.map Value.toText)) := by
      rw [keyText, keyValues, hvalues, Option.map_some]
    rw [hkeyText, Option.some.injEq, KeySpec.intercalate_eq_iff hsplit (by simp [hvlen]), hiff]
    constructor
    · intro hkeeps
      exact ⟨parts, hsplit, hkeeps⟩
    · intro hkeeps
      obtain ⟨parts', hsplit', hkeeps⟩ := hkeeps
      obtain rfl := Except.ok.inj (hsplit.symm.trans hsplit')
      exact hkeeps
  refine ⟨(Schema.list.inj (hid'.symm.trans hid)).1, hreads, htext, ?_⟩
  intro hsettled key c key' c' hm hm' hkeeps hkeeps' heq
  rw [(htext hsettled hm).2 hkeeps, (htext hsettled hm').2 hkeeps'] at heq
  obtain rfl := Option.some.inj heq
  have hget := Assoc.get?_eq_some_of_mem (h.sound.keys he hl) hm
  rw [Assoc.get?_eq_some_of_mem (h.sound.keys he hl) hm'] at hget
  exact ⟨rfl, (Option.some.inj hget).symm⟩

/-- **Keys and key leaves**: whatever entries are added to an empty list and deleted from it, a
key leaf reads as what its type makes of its part of the key.  So the key leaves read as
the key exactly as far as their types keep its parts, and where they do, no two entries
read the same. -/
theorem keys_agree_of_reaches {schema : Blueprint} (hroot : spec.parent = none)
    (h₀ : Evolves schema spec t₀) {e₀ : Element} (he₀ : t₀.element? id = some e₀)
    (hempty : e₀.content = .list ⟨s, []⟩) (hkeyed : s.key.isKeyless = false) (hplain : s.PlainKeys)
    (h : Reaches (Listing id) t₀ t) (he : t.element? id = some e) (hl : e.content = .list l) :
    l.schema = s ∧ t.KeysAgree e l := by
  obtain ⟨hs, node, hf⟩ := schematic_of_evolves hroot h₀
  obtain ⟨default, hid⟩ := hf.schema_eq he₀ hempty
  have hstart : t₀.Lists schema s id := by
    refine ⟨hs, ?_, index_lt_of_element? he₀, node, default, hf, hid⟩
    intro e' l' key c he' hl' hm
    obtain rfl : e₀ = e' := Option.some.inj (he₀.symm.trans he')
    obtain rfl := Content.list.inj (hempty.symm.trans hl')
    cases hm
  exact (h.keeps (fun _ _ hI hop => lists_after hI hplain hkeyed hop) hstart).keysAgree he hl

/-! ## A session -/

/-- Units by the name of their port and a number. -/
def units : ListSchema Schema :=
  ⟨⟨["name", "number"]⟩, [⟨"name", none, .leaf .string .empty⟩,
    ⟨"number", none, .leaf (.int {}) .empty⟩],
    false⟩

/-- The container of the units. -/
def unitTable : Blueprint where
  root := .container [⟨"unit", none, .list units .empty⟩] .empty
  distinct := by simp [units, Schema.Distinct, Schema.AllDistinct]

/-- The tree of units, and what becomes of it when units are added, the last one first. -/
def numbered : List String → Tree
  | [] => (Operation.instantiate unitTable { name := "root" }).after {}
  | key :: keys => (Operation.add ⟨1⟩ (some key)).after (numbered keys)

theorem reaches_numbered (keys : List String) :
    Reaches (Listing ⟨1⟩) (numbered []) (numbered keys) := by
  induction keys with
  | nil => exact .refl
  | cons key keys ih => exact ih.andThen (.add ⟨1⟩ (some key)) rfl

theorem plainKeys_units : units.PlainKeys := by
  intro field _ type htype
  obtain ⟨case, default, hm⟩ := htype
  simp only [units, List.mem_cons, Child.mk.injEq, Schema.leaf.injEq, List.not_mem_nil,
    or_false] at hm
  obtain ⟨-, -, rfl, -⟩ | ⟨-, -, rfl, -⟩ := hm <;> rfl

theorem settled_units : units.Settled := by
  have hno : ¬ units.Displaces "number" "name" := by
    rintro (heq | ⟨k, k', n, n', hm, -⟩)
    · exact absurd heq (by decide)
    · simp [units] at hm
  exact List.Pairwise.cons (by simpa using hno) (List.pairwise_singleton _ _)

theorem evolves_numbered : Evolves unitTable { name := "root" } (numbered []) := .refl

/-- The list of units is where it was declared. -/
theorem exists_units (keys : List String) (members : List (String × ElementId))
    (h : ((numbered keys).keyedList ⟨1⟩).toOption.map (·.members) = some members) :
    ∃ e l, (numbered keys).element? ⟨1⟩ = some e ∧ e.content = .list l ∧ l.members = members := by
  obtain ⟨l, hl, rfl⟩ := Option.map_eq_some_iff.1 h
  cases hk : (numbered keys).keyedList ⟨1⟩ with
  | error err => simp [hk, Except.toOption] at hl
  | ok l' =>
    obtain rfl : l' = l := by simpa [hk, Except.toOption] using hl
    obtain ⟨e, he, hcont⟩ := listFor_eq_ok_iff.1 hk
    exact ⟨e, l', he, hcont, rfl⟩

/-- Before any unit was added the list is empty. -/
theorem exists_no_units :
    ∃ e, (numbered []).element? ⟨1⟩ = some e ∧ e.content = .list ⟨units, []⟩ :=
  ⟨_, rfl, rfl⟩

theorem keepsKey_units {path key number : String}
    (hsplit : units.key.split path key = .ok ["eth0", number])
    (hnumber : (LeafType.int {}).Keeps number) : units.KeepsKey path key := by
  refine ⟨_, hsplit, fun q hq => ?_⟩
  have hq : q = ("name", "eth0") ∨ q = ("number", number) := by simpa [units] using hq
  obtain rfl | rfl := hq
  · exact ⟨.string, ⟨none, .empty, by simp [units]⟩, LeafType.keeps_of_construct_text rfl⟩
  · exact ⟨.int {}, ⟨none, .empty, by simp [units]⟩, hnumber⟩

/-- Units with plain numbers read as their keys. -/
theorem keys_agree_numbered :
    ∃ e l, (numbered ["eth0 2", "eth0 1"]).element? ⟨1⟩ = some e ∧ e.content = .list l ∧
      l.members = [("eth0 1", ⟨2⟩), ("eth0 2", ⟨5⟩)] ∧
      (numbered ["eth0 2", "eth0 1"]).keyText ⟨2⟩ l.schema.key = some "eth0 1" ∧
      (numbered ["eth0 2", "eth0 1"]).keyText ⟨5⟩ l.schema.key = some "eth0 2" := by
  obtain ⟨e₀, he₀, hempty⟩ := exists_no_units
  obtain ⟨e, l, he, hl, hmembers⟩ := exists_units ["eth0 2", "eth0 1"]
    [("eth0 1", ⟨2⟩), ("eth0 2", ⟨5⟩)] (by decide +kernel)
  obtain ⟨hschema, hagree⟩ := keys_agree_of_reaches rfl evolves_numbered he₀ hempty rfl
    plainKeys_units (reaches_numbered ["eth0 2", "eth0 1"]) he hl
  have hsettled : l.schema.Settled := hschema ▸ settled_units
  refine ⟨e, l, he, hl, hmembers, (hagree.text_iff hsettled (by simp [hmembers])).2 ?_,
    (hagree.text_iff hsettled (by simp [hmembers])).2 ?_⟩
  · rw [hschema]
    exact keepsKey_units rfl (LeafType.keeps_int_iff.2 ⟨1, rfl, by decide +kernel⟩)
  · rw [hschema]
    exact keepsKey_units rfl (LeafType.keeps_int_iff.2 ⟨2, rfl, by decide +kernel⟩)

/-- With a padded number a unit reads as another one. -/
theorem not_keys_agree_padded :
    ¬ ∀ (schema : Blueprint) (spec : ElementSpec) (s : ListSchema Schema) (t₀ t : Tree)
        (id : ElementId) (e₀ e : Element) (l : KeyedList),
      spec.parent = none → Evolves schema spec t₀ →
      t₀.element? id = some e₀ → e₀.content = .list ⟨s, []⟩ → s.key.isKeyless = false →
      s.PlainKeys → s.Settled → Reaches (Listing id) t₀ t →
      t.element? id = some e → e.content = .list l →
      (∀ key c, (key, c) ∈ l.members → t.keyText c s.key = some key) ∧
        ∀ key c key' c', (key, c) ∈ l.members → (key', c') ∈ l.members →
          t.keyText c s.key = t.keyText c' s.key → c = c' := by
  intro hall
  obtain ⟨e₀, he₀, hempty⟩ := exists_no_units
  obtain ⟨e, l, he, hl, hmembers⟩ := exists_units ["eth0 05", "eth0 5"]
    [("eth0 5", ⟨2⟩), ("eth0 05", ⟨5⟩)] (by decide +kernel)
  have hkeys := hall _ _ _ _ _ _ _ _ _ rfl evolves_numbered he₀ hempty rfl plainKeys_units
    settled_units (reaches_numbered ["eth0 05", "eth0 5"]) he hl
  have htext := hkeys.1 "eth0 05" ⟨5⟩ (by simp [hmembers])
  have hread : (numbered ["eth0 05", "eth0 5"]).keyText ⟨5⟩ units.key = some "eth0 5" := by
    decide +kernel
  rw [hread] at htext
  exact absurd htext (by decide)

end Tree

end DataTree
