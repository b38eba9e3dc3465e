import DataTree.Proofs.Path.Announced
import DataTree.Proofs.Path.Names
import DataTree.Proofs.Path.Predicate

/-!
# DataTree.Proofs.Path.Session

Where a query may leave out the key of an entry.

A leaf of an entry is registered below the path of the entry, which is the path of the
list with the tag of the key.  A query without the tag finds the leaf if splitting the
registered path leaves the tag with its segment, and it does so for every sealed tag
(`segments_below_entry`).  Nothing escapes the characters of a key, so an entry whose
key has a bracket of its own is not found (`not_found_below_unsealed`).
-/

namespace DataTree

open Edit DataTree.Path

/-- The path of an entry is the path of its list with the tag of its key. -/
theorem KeyedList.IsEntryPath.eq_tag {l : KeyedList} {path key entryPath : String}
    (h : l.IsEntryPath path key entryPath) : entryPath = path ++ l.schema.key.tag key := by
  unfold IsEntryPath at h
  unfold KeySpec.tag
  split at h
  · next hk => rw [if_pos hk, h]; simp
  · next hk =>
    obtain ⟨parts, hsplit, rfl⟩ := h
    rw [if_neg hk, KeySpec.split_eq_ok hsplit]

namespace Path

variable {path name : String}

/-- A path that later segments can be put behind, and that a query can spell out. -/
def Regular (path : String) : Prop :=
  Closed path ∧ ∀ s ∈ segments path.toList, s ∉ [['.'], ['.', '.']]

instance : DecidablePred Regular := fun path =>
  inferInstanceAs (Decidable (Closed path ∧ ∀ s ∈ segments path.toList, s ∉ [['.'], ['.', '.']]))

theorem regular_root : Regular "/" := by decide

theorem Regular.child (h : Regular path) (hn : IsName name) : Regular (child path name) := by
  refine ⟨(closed_child hn).2 h.1, fun s hs => ?_⟩
  rw [segments_child h.1 hn] at hs
  obtain hs | hs := List.mem_append.1 hs
  · exact h.2 s hs
  · rw [List.mem_singleton.1 hs]
    exact fun hm => hn.2 (List.mem_cons_of_mem _ hm)

theorem Regular.tag {k : KeySpec} {key : String} (h : Regular path)
    (ht : Sealed (k.tag key).toList) : Regular (path ++ k.tag key) := by
  obtain hnil | ⟨inner, hinner⟩ := k.tag_eq key
  · rwa [hnil, String.append_empty]
  have hbracket : ∀ front : List Char, front ++ (k.tag key).toList ∉ [['.'], ['.', '.']] := by
    intro front hm
    have hmem : '[' ∈ front ++ (k.tag key).toList := by simp [hinner]
    generalize front ++ (k.tag key).toList = s at hm hmem
    obtain rfl | hm := List.mem_cons.1 hm
    · simp at hmem
    · rw [List.mem_singleton.1 hm] at hmem
      simp at hmem
  refine ⟨closed_append h.1 ht, fun s hs => ?_⟩
  obtain hsegments | hsegments := segments_append h.1 ht (by simp [hinner])
  · rw [hsegments, withTag] at hs
    obtain hs | hs := List.mem_append.1 hs
    · exact h.2 s (List.dropLast_subset _ hs)
    · rw [List.mem_singleton.1 hs]
      exact hbracket _
  · rw [hsegments] at hs
    obtain hs | hs := List.mem_append.1 hs
    · exact h.2 s hs
    · rw [List.mem_singleton.1 hs]
      exact hbracket []

/-- Putting a tag behind a segment does not put a slash there. -/
theorem getLast?_append_tag {k : KeySpec} {key : String} {init : List (List Char)}
    {last : List Char} (hc : Closed path) (hinit : stretches {} path.toList = init ++ [last])
    (hlast : last ≠ []) : (path ++ k.tag key).toList.getLast? ≠ some '/' := by
  obtain hnil | ⟨inner, hinner⟩ := k.tag_eq key
  · rw [hnil, String.append_empty]
    intro h
    obtain ⟨init', hinit'⟩ := stretches_of_getLast? hc h
    rw [hinit] at hinit'
    exact hlast (List.append_inj_right' hinit' rfl |> List.head_eq_of_cons_eq)
  · rw [String.toList_append, hinner, ← List.append_assoc, List.getLast?_concat]
    simp

end Path

namespace Tree

variable {t : Tree} {pending : Set ElementId} {id c x : ElementId} {e : Element}
  {schema : Blueprint} {spec : ElementSpec}

/-! ## Paths above a list -/

/-- The keys of all entries on the way to an element have sealed tags. -/
def SealedAbove (t : Tree) (id : ElementId) : Prop :=
  ∀ ⦃p pe l key c⦄, t.element? p = some pe → pe.content = .list l → (key, c) ∈ l.members →
    t.Under c id → Sealed (l.schema.key.tag key).toList

/-- What is above a sealed way is on a sealed way. -/
theorem SealedAbove.above {p : ElementId} (h : t.SealedAbove id) (ha : t.Above p id) :
    t.SealedAbove p := fun _ _ _ _ _ hq hl hm hu => h hq hl hm (hu.tail ha)

/-- Below sealed entries all paths are regular. -/
theorem regular_path (h : Sound t ∅) (hn : Named t) (he : t.element? id = some e)
    (hs : t.SealedAbove id) : Regular e.path := by
  obtain ⟨n, hid⟩ : ∃ n, id.index < n := ⟨_, Nat.lt_succ_self _⟩
  induction n generalizing id e with
  | zero => omega
  | succ n ih =>
    cases hp : e.parent with
    | none =>
      rw [hn.root he hp]
      exact regular_root
    | some p =>
      have ha := h.listed he hp (Set.notMem_empty id)
      have hlt := h.parent_lt he hp
      have ⟨pe, hpe, hbelow⟩ := ha
      have hregular := ih hpe (hs.above ha) (by omega)
      obtain hm | hm := List.mem_append.1 hbelow
      · obtain ⟨⟨name, c⟩, hchild, rfl⟩ := List.mem_map.1 hm
        obtain ⟨-, -, ce, hce, -, -, hpath⟩ := h.child hpe hchild
        rw [Option.some.inj (he.symm.trans hce), hpath]
        exact hregular.child (hn.child hpe hchild)
      · cases hl : pe.content with
        | list l =>
          rw [hl] at hm
          obtain ⟨⟨key, c⟩, hentry, rfl⟩ := List.mem_map.1 hm
          obtain ⟨-, ce, hce, -, -, hpath⟩ := h.entry hpe hl hentry
          rw [Option.some.inj (he.symm.trans hce), hpath.eq_tag]
          exact hregular.tag (hs hpe hl hentry .refl)
        | _ => simp [hl, Content.entries] at hm

/-- A list that is no root is the child of a container. -/
theorem Sound.exists_parent_of_list (h : Sound t ∅) {l : KeyedList} (he : t.element? id = some e)
    (hl : e.content = .list l) (hp : e.parent ≠ none) :
    ∃ p pe name, t.Above p id ∧ t.element? p = some pe ∧ (name, id) ∈ pe.children ∧
      e.path = Path.child pe.path name := by
  obtain ⟨p, hpar⟩ := Option.ne_none_iff_exists'.1 hp
  have ha := h.listed he hpar (Set.notMem_empty id)
  have ⟨pe, hpe, hbelow⟩ := ha
  obtain hm | hm := List.mem_append.1 hbelow
  · obtain ⟨⟨name, id⟩, hchild, rfl⟩ := List.mem_map.1 hm
    obtain ⟨-, -, ce, hce, -, -, hpath⟩ := h.child hpe hchild
    obtain rfl : e = ce := Option.some.inj (he.symm.trans hce)
    exact ⟨p, pe, name, ha, hpe, hchild, hpath⟩
  · cases hpl : pe.content with
    | list l' =>
      rw [hpl] at hm
      obtain ⟨⟨key, id⟩, hentry, rfl⟩ := List.mem_map.1 hm
      obtain ⟨-, ce, hce, hcont, -⟩ := h.entry hpe hpl hentry
      rw [← Option.some.inj (he.symm.trans hce), hl] at hcont
      cases hcont
    | _ => simp [hpl, Content.entries] at hm

/-! ## Paths below a list -/

/-- **Splitting below entries**: a child of an entry is registered below the segments of the
list, with the predicate of the key at the last one, exactly if that predicate is sealed, as
that of every tame key is; and then a query without the predicate finds the child. -/
theorem segments_below_entry (hn : schema.root.Named) (hroot : spec.parent = none)
    (hpath : spec.registerPath = none) (hr : spec.registers = true) (h : Grows schema spec t)
    {l : KeyedList} {key name : String} {ce xe : Element} (he : t.element? id = some e)
    (hl : e.content = .list l) (hp : e.parent ≠ none) (hs : t.SealedAbove id)
    (hm : (key, c) ∈ l.members) (hc : t.element? c = some ce) (hx : (name, x) ∈ ce.children)
    (hxe : t.element? x = some xe) :
    (segments xe.path.toList
        = withTag (segments e.path.toList) (l.schema.key.tag key).toList ++ [name.toList] ↔
      Sealed (l.schema.key.tag key).toList) ∧
    (Sealed (l.schema.key.tag key).toList →
      .element x ∈ t.registry.lookup (e.path ++ "/" ++ name) none) ∧
    (l.schema.key.Tame key → Sealed (l.schema.key.tag key).toList) := by
  have hsound := (orderly_of_grows hroot h).sound
  have hnamed := named_of_grows hn hroot hpath h
  have hannounced := announced_of_grows hr h
  obtain ⟨p, pe, lname, ha, hpe, hlm, hlpath⟩ := hsound.exists_parent_of_list he hl hp
  have hlname := hnamed.child hpe hlm
  have hname := hnamed.child hc hx
  have habove := regular_path hsound hnamed hpe (hs.above ha)
  have hlist : Regular e.path := hlpath ▸ habove.child hlname
  obtain ⟨init, hinit, -⟩ := stretches_child habove.1 hlname
  rw [← hlpath] at hinit
  have hxpath : xe.path = Path.child (e.path ++ l.schema.key.tag key) name := by
    obtain ⟨-, ce', hce', -, -, hcpath⟩ := hsound.entry he hl hm
    obtain rfl : ce = ce' := Option.some.inj (hc.symm.trans hce')
    obtain ⟨-, -, xe', hxe', -, -, hpath⟩ := hsound.child hc hx
    rw [Option.some.inj (hxe.symm.trans hxe'), hpath, hcpath.eq_tag]
  have hiff : segments xe.path.toList
      = withTag (segments e.path.toList) (l.schema.key.tag key).toList ++ [name.toList] ↔
        Sealed (l.schema.key.tag key).toList := by
    rw [hxpath]
    exact segments_child_append_iff hlist.1 hinit hlname.ne_nil
      (getLast?_append_tag hlist.1 hinit hlname.ne_nil) hname
  refine ⟨hiff, fun ht => Registry.mem_lookup (hannounced.listed hxe) ?_,
    KeySpec.sealed_tag (hnamed.list he hl).1⟩
  have hquery : resolve (e.path ++ "/" ++ name).toList none
      = segments pe.path.toList ++ [lname.toList, name.toList] := by
    rw [← child_eq hlist.1 hinit hlname.ne_nil name, resolve_eq,
      segments_child hlist.1 hname, hlpath, segments_child habove.1 hlname, List.append_assoc]
    · rfl
    · intro s hm
      have hno := (hlist.child hname).2 s hm
      simpa using hno
  have hfound : segments xe.path.toList
      = segments pe.path.toList ++
        [lname.toList ++ (l.schema.key.tag key).toList, name.toList] := by
    rw [hiff.2 ht, hlpath, segments_child habove.1 hlname, withTag_concat, List.append_assoc]
    rfl
  rw [Option.map_none, hquery, hfound]
  refine answers_append_tag _ (fun hm => hlname.1 _ hm (by simp)) ?_
  obtain hnil | ⟨inner, hinner⟩ := l.schema.key.tag_eq key
  · exact .inl (by rw [hnil]; rfl)
  · exact .inr (by rw [hinner]; rfl)

/-! ## A session -/

/-- Ports with an MTU, by name. -/
def ports : Blueprint :=
  .container
    [⟨"port", none,
        .list ⟨⟨["name"]⟩, [⟨"name", none, .leaf .string⟩, ⟨"mtu", none, .leaf .string⟩], false⟩⟩]

/-- A single port of a name. -/
def ported (key : String) : Tree :=
  let made := (Operation.instantiate ports { name := "root", registers := true }).after {}
  (Operation.add ⟨1⟩ (some key)).after made

theorem grows_ported (key : String) :
    Grows ports { name := "root", registers := true } (ported key) := by
  have hmade : Grows ports { name := "root", registers := true } _ := .refl
  exact hmade.andThen (.add ⟨1⟩ (some key)) trivial

theorem named_ports : ports.root.Named := by
  simp [ports, Blueprint.declared, declareAll, declare, Schema.Named, Schema.AllNamed]
  decide

/-- The ports whose places are looked at. -/
theorem ported_places : ∀ key ∈ ["ge-0/0/1", "a[b"],
    ((ported key).keyedList ⟨1⟩).toOption.map (fun l => (l.schema.key.fields, l.members))
        = some (["name"], [(key, ⟨2⟩)]) ∧
      ((ported key).element? ⟨0⟩).map (·.content.isContainer) = some true ∧
      ((ported key).element? ⟨1⟩).map (fun e => (e.path, e.parent)) = some ("/port", some ⟨0⟩) ∧
      ((ported key).element? ⟨2⟩).map (·.children) = some [("name", ⟨3⟩), ("mtu", ⟨4⟩)] ∧
      ((ported key).element? ⟨4⟩).isSome = true := by
  decide +kernel

/-- What is known of the MTU of a port. -/
theorem exists_mtu (key : String) (hkey : key ∈ ["ge-0/0/1", "a[b"]) :
    ∃ e l ce xe, (ported key).element? ⟨1⟩ = some e ∧ e.content = .list l ∧
      l.schema.key.fields = ["name"] ∧ (key, ⟨2⟩) ∈ l.members ∧ e.path = "/port" ∧ e.parent ≠ none ∧
      (ported key).element? ⟨2⟩ = some ce ∧ ("mtu", ⟨4⟩) ∈ ce.children ∧
      (ported key).element? ⟨4⟩ = some xe := by
  obtain ⟨hlist, -, hport, hentry, hmtu⟩ := ported_places key hkey
  obtain ⟨l, hl, hfields⟩ := Option.map_eq_some_iff.1 hlist
  obtain ⟨hfields, hmembers⟩ := Prod.mk.inj hfields
  obtain ⟨e, he, hpath⟩ := Option.map_eq_some_iff.1 hport
  obtain ⟨hpath, hparent⟩ := Prod.mk.inj hpath
  obtain ⟨ce, hce, hchildren⟩ := Option.map_eq_some_iff.1 hentry
  obtain ⟨xe, hxe⟩ := Option.isSome_iff_exists.1 hmtu
  have hok : (ported key).keyedList ⟨1⟩ = .ok l := by
    cases hk : (ported key).keyedList ⟨1⟩ with
    | error err => simp [hk, Except.toOption] at hl
    | ok l' => simpa [hk, Except.toOption] using hl
  obtain ⟨e', he', hcont⟩ := listFor_eq_ok_iff.1 hok
  obtain rfl : e = e' := Option.some.inj (he.symm.trans he')
  exact ⟨e, l, ce, xe, he, hcont, hfields, by simp [hmembers], hpath, by simp [hparent], hce,
    by simp [hchildren], hxe⟩

/-- Slashes in its name do not hide a port. -/
theorem found_below_port :
    .element ⟨4⟩ ∈ (ported "ge-0/0/1").registry.lookup "/port/mtu" none := by
  obtain ⟨e, l, ce, xe, he, hl, hfields, hm, hpath, hp, hc, hx, hxe⟩ :=
    exists_mtu "ge-0/0/1" (by simp)
  have hgrows := grows_ported "ge-0/0/1"
  have hsound := (orderly_of_grows rfl hgrows).sound
  -- Only the root is above the list, and that is no list.
  have hs : (ported "ge-0/0/1").SealedAbove ⟨1⟩ := by
    intro p pe l' key c hpe hl' hm' hu
    obtain ⟨-, ce', hce', -, hpar, -⟩ := hsound.entry hpe hl' hm'
    have hlt := hsound.parent_lt hce' hpar
    have hle := hsound.index_le_of_under hu
    obtain rfl : p = ⟨0⟩ := by
      cases p
      simp only [ElementId.mk.injEq]
      simp only at hlt hle
      omega
    have hroot := (ported_places "ge-0/0/1" (by simp)).2.1
    rw [hpe, Option.map_some, hl'] at hroot
    cases hroot
  have hbelow := segments_below_entry named_ports rfl rfl rfl hgrows he hl hp hs hm hc
    hx hxe
  have htame : l.schema.key.Tame "ge-0/0/1" := by
    have hplain : ("ge-0/0/1".toList.all fun c => c ∉ ['[', ']', '\'']) = true := by decide
    unfold KeySpec.Tame
    rw [hfields]
    exact fun c hc => of_decide_eq_true (List.all_eq_true.1 hplain c hc)
  have hfound := hbelow.2.1 (hbelow.2.2 htame)
  rwa [hpath] at hfound

/-- A bracket in its name does. -/
theorem not_found_below_unsealed :
    ¬ ∀ (schema : Blueprint) (spec : ElementSpec) (t : Tree) (id c x : ElementId) (e ce : Element)
      (l : KeyedList) (key name : String), schema.root.Named → spec.parent = none →
      spec.registerPath = none → spec.registers = true → Grows schema spec t →
      t.element? id = some e → e.content = .list l → e.parent ≠ none → (key, c) ∈ l.members →
      t.element? c = some ce → (name, x) ∈ ce.children →
      .element x ∈ t.registry.lookup (e.path ++ "/" ++ name) none := by
  intro hall
  obtain ⟨e, l, ce, xe, he, hl, -, hm, hpath, hp, hc, hx, -⟩ := exists_mtu "a[b" (by simp)
  have hfound := hall ports _ _ _ _ _ e ce l "a[b" "mtu" named_ports rfl rfl rfl
    (grows_ported "a[b") he hl hp hm hc hx
  have hnone : ((ported "a[b").registry.lookup "/port/mtu" none).length = 0 := by decide +kernel
  rw [hpath, show "/port" ++ "/" ++ "mtu" = "/port/mtu" from by decide,
    List.eq_nil_of_length_eq_zero hnone] at hfound
  cases hfound

end Tree

end DataTree
