import DataTree.Proofs.Path.Session
import DataTree.Proofs.Path.Tidy

/-!
# DataTree.Proofs.Path.Relative

Paths put behind paths.

* `segments_append_slash` — behind a closed path and a slash, cutting starts afresh;
* `resolve_relative` — a relative path leads, seen from its caller, where the path of the
  caller and the relative path behind it lead, as one path from the root;
* `paths_compose` — both, with the joining of segments and for every registry.

The path of the caller is taken as a place and not interpreted, so a caller with `.` or
`..` among its segments is left out: as a part of a path these would be steps.
-/

namespace DataTree.Path

variable {a path caller : String}

/-! ## Cutting -/

/-- Behind a closed path and a slash, cutting starts afresh. -/
theorem segments_append_slash (h : Closed a) (b : String) :
    segments (a ++ "/" ++ b).toList = segments a.toList ++ segments b.toList := by
  have hafter : Nesting.after {} a.toList = {} := h
  obtain ⟨init, last, ha⟩ := exists_stretches_concat {} a.toList
  have hb : stretches (Nesting.after {} a.toList) ('/' :: b.toList)
      = [] :: stretches {} b.toList := by
    rw [hafter, stretches_slash_cons]
  have hall := stretches_append ha hb
  rw [List.append_nil] at hall
  have htext : (a ++ "/" ++ b).toList = a.toList ++ '/' :: b.toList := by simp
  rw [htext, segments, hall, segments, segments, ha, ← List.filter_append, List.append_assoc,
    List.singleton_append]

/-- A slash in front makes no difference. -/
theorem segments_slash_append (path : String) :
    segments ("/" ++ path).toList = segments path.toList := by
  have h := segments_append_slash (show Closed "" from rfl) path
  rwa [String.empty_append] at h

theorem Closed.slash_append (h : Closed path) : Closed ("/" ++ path) := by
  have hafter : Nesting.after {} path.toList = {} := h
  rw [Closed, String.toList_append, Nesting.after_append]
  exact hafter

/-! ## Seen from a caller -/

/-- A relative path is walked from the place of its caller. -/
theorem resolve_some (hp : path.toList.head? ≠ some '/') (caller : List Char) :
    resolve path.toList (some caller) =
      (segments path.toList).foldl stepInto (segments caller) := by
  cases hpath : path.toList with
  | nil => rfl
  | cons c cs =>
    have hc : c ≠ '/' := by simpa [hpath] using hp
    simp [resolve, hc]

/-- A relative path leads, seen from its caller, where the path of the caller and the
relative path behind it lead from the root. -/
theorem resolve_relative (hc : Regular caller) (hp : path.toList.head? ≠ some '/') :
    resolve path.toList (some caller.toList)
      = resolve ("/" ++ caller ++ "/" ++ path).toList none := by
  have hcaller : ∀ s ∈ segments caller.toList, s ≠ ['.'] ∧ s ≠ ['.', '.'] := fun s hs => by
    simpa using hc.2 s hs
  calc resolve path.toList (some caller.toList)
      = (segments path.toList).foldl stepInto (segments caller.toList) := resolve_some hp _
    _ = (segments path.toList).foldl stepInto ((segments caller.toList).foldl stepInto []) := by
        rw [foldl_stepInto hcaller, List.nil_append]
    _ = (segments ("/" ++ caller ++ "/" ++ path).toList).foldl stepInto [] := by
        rw [segments_append_slash hc.1.slash_append, segments_slash_append, List.foldl_append]
    _ = resolve ("/" ++ caller ++ "/" ++ path).toList none := (resolve_none _).symm

/-! ## Main statement -/

/-- **Paths compose**: behind a closed path and a slash the segments of another path follow;
segments are not empty, and with slashes between them they are the tidy path; and in every
registry a query that is relative to a regular caller finds what the path of the caller with
the query behind it finds. -/
theorem paths_compose :
    (∀ a b : String, Closed a →
      segments (a ++ "/" ++ b).toList = segments a.toList ++ segments b.toList) ∧
    (∀ path : String, [] ∉ segments path.toList ∧
      ['/'].intercalate (segments path.toList) = tidy path.toList) ∧
    ∀ (r : Registry) (path caller : String), Regular caller → path.toList.head? ≠ some '/' →
      r.lookup path (some caller) = r.lookup ("/" ++ caller ++ "/" ++ path) none := by
  refine ⟨fun a b ha => segments_append_slash ha b,
    fun path => ⟨fun hnil => ne_nil_of_mem_segments hnil rfl, intercalate_segments _⟩,
    fun r path caller hc hp => ?_⟩
  rw [Registry.lookup, Registry.lookup, Option.map_some, Option.map_none, resolve_relative hc hp]

/-- Two ports, registered with the names of their own, and their states. -/
def portNames : Registry :=
  let named := (({} : Registry).register "/ports/port[id='a/b']/name" (.element ⟨1⟩)).register
    "/ports/port[id='c']/name" (.element ⟨2⟩)
  named.register "/ports/port[id='a/b']/state" (.element ⟨3⟩)

/-- From the state of a port, a step up leads to the name of the same port. -/
theorem paths_compose_up :
    (Closed "/ports/port[id='a/b']" ∧
      segments ("/ports/port[id='a/b']" ++ "/" ++ "state").toList
        = ["ports".toList, "port[id='a/b']".toList] ++ segments "state".toList) ∧
    Regular "/ports/port[id='a/b']/state" ∧ "../name".toList.head? ≠ some '/' ∧
    portNames.lookup "../name" (some "/ports/port[id='a/b']/state")
      = portNames.lookup ("/" ++ "/ports/port[id='a/b']/state" ++ "/" ++ "../name") none ∧
    (portNames.lookup "../name" (some "/ports/port[id='a/b']/state")).map Target.outline
      = ["Element(ElementId(1))"] := by
  obtain ⟨hcut, -, hlookup⟩ := paths_compose
  have hclosed : Closed "/ports/port[id='a/b']" := by decide +kernel
  have hregular : Regular "/ports/port[id='a/b']/state" := by decide +kernel
  have hrelative : "../name".toList.head? ≠ some '/' := by decide
  refine ⟨⟨hclosed, ?_⟩, hregular, hrelative, hlookup portNames _ _ hregular hrelative, ?_⟩
  · rw [hcut _ _ hclosed]
    decide +kernel
  · decide +kernel

end DataTree.Path
