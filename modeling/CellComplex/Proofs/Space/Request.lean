import CellComplex.Proofs.Space.Overlay

/-!
# Requests to a store over another

Whatever is asked of a store over another, as long as the cells of the lower store are left alone,
is answered as one store with all the cells would answer.

* `Request`: what can be asked; `Request.edit` answers, `Request.rename` asks the same by other
  names, `Request.Spares` says that cells of the lower store are not to be changed;
* `createChecked_agreesAt` … `buildIndex_agreesAt`: one lemma for each kind of edit;
* **`Request.agreesAt`**: one request is answered alike and keeps the invariant;
* **`Space.after_overlays`**: so do any number of them;
* **`overlay_renamed`**: after any number of requests both show the same and answer alike.
-/

namespace CellComplex

/-! ## 1. Requests -/

/-- **What can be asked of a store over another.** -/
inductive Request where
  | create (label : String) (boundary : List CellId)
  | createListing (label : String) (boundary : List CellId)
  | link (a b : CellId) (label : String) (oriented : Bool)
  | linkAtom (expansion atom : CellId)
  | delete (id : CellId)
  | setLabel (id : CellId) (label : String)
  | setEmbedding (id : CellId) (embedding : Embedding)
  | buildIndex

namespace Request

/-- The edit that answers; its value is the cell that was made or found, if one was asked for. -/
def edit : Request → Edit (Option CellId)
  | .create label boundary => return some (← Space.create label boundary)
  | .createListing label boundary => return some (← Space.createListing label boundary)
  | .link a b label oriented => return some (← Space.link a b label oriented)
  | .linkAtom expansion atom => do
    Space.linkAtom expansion atom
    return none
  | .delete id => do
    Space.delete id
    return none
  | .setLabel id label => do
    Space.setLabel id label
    return none
  | .setEmbedding id embedding => do
    Space.setEmbedding id embedding
    return none
  | .buildIndex => do
    Space.buildIndex
    return none

/-- The same request, with its cells renamed. -/
def rename (ρ : CellId → CellId) : Request → Request
  | .create label boundary => .create label (boundary.map ρ)
  | .createListing label boundary => .createListing label (boundary.map ρ)
  | .link a b label oriented => .link (ρ a) (ρ b) label oriented
  | .linkAtom expansion atom => .linkAtom (ρ expansion) (ρ atom)
  | .delete id => .delete (ρ id)
  | .setLabel id label => .setLabel (ρ id) label
  | .setEmbedding id embedding => .setEmbedding (ρ id) embedding
  | .buildIndex => .buildIndex

/-- **A request that is not to change a cell of `base`.** -/
def Spares (base : Store) : Request → Prop
  | .delete id | .setLabel id _ | .setEmbedding id _ => base.owns id = false
  | _ => True

end Request

/-- The space that some requests leave behind, one after the other, failing or not. -/
def Space.after (sp : Space) (requests : List Request) : Space :=
  requests.foldl (fun sp request => (request.edit.apply sp).2) sp

/-! ## 2. Edits on both sides -/

section Edits

open Edit

variable {base : Store} {p : Nat} {ρ : CellId → CellId} {sp flat : Space} {id : CellId}

/-- What the lower store does not own is refused on both sides, or on neither. -/
theorem requireOwned_agrees (h : Overlays base p ρ sp flat) (hspare : base.owns id = false) :
    Outcome.Agrees ρ (fun _ _ => sp.top.owns id = true) (sp.requireOwned id)
      (flat.requireOwned (ρ id)) := by
  unfold Space.requireOwned
  rw [h.owns_eq hspare, h.shows.contains_eq]
  split
  · next hown => exact .ok hown
  · split
    · exact .error (.shadowingUnsupported .cell id)
    · exact .error (.cellNotFound id)

variable (hρ : Grafts base p ρ) (h : Overlays base p ρ sp flat)
include hρ h

theorem createChecked_agreesAt {label : String} {boundary : List CellId} {check : BoundaryCheck} :
    AgreesAt ρ (Overlays base p ρ) (fun x y => y = ρ x)
      (Space.createChecked label boundary check)
      (Space.createChecked label (boundary.map ρ) check) sp flat := by
  have hmade : Outcome.Agrees ρ (Cell.Renamed ρ)
      (Cell.make sp.lookup (sp.top.nextId 0) label boundary check)
      (Cell.make flat.lookup (flat.top.nextId 0) label (boundary.map ρ) check) := by
    rw [h.nextId_eq hρ]
    exact make_renamed hρ.bijective h.shows.find
  cases hmake : Cell.make sp.lookup (sp.top.nextId 0) label boundary check with
  | error err =>
    have hmake' := (hmake ▸ hmade).of_error
    constructor <;> rw [Space.apply_createChecked, Space.apply_createChecked, hmake, hmake']
    · exact .error err
    · exact h
  | ok c =>
    obtain ⟨d, hmake', hcd⟩ := (hmake ▸ hmade).of_ok
    constructor <;> rw [Space.apply_createChecked, Space.apply_createChecked, hmake, hmake']
    · exact .ok hcd.id
    · exact h.push hρ (make_fields hmake).1 hcd hmake'

theorem link_agreesAt {a b : CellId} {label : String} {oriented : Bool} :
    AgreesAt ρ (Overlays base p ρ) (fun x y => y = ρ x) (Space.link a b label oriented)
      (Space.link (ρ a) (ρ b) label oriented) sp flat := by
  have hfound : Outcome.Agrees ρ (fun x y => y = x.map ρ)
      (do
        Space.requirePoint (← sp.resolve a)
        Space.requirePoint (← sp.resolve b)
        return sp.findLink? a b label oriented)
      (do
        Space.requirePoint (← flat.resolve (ρ a))
        Space.requirePoint (← flat.resolve (ρ b))
        return flat.findLink? (ρ a) (ρ b) label oriented) :=
    (h.shows.resolve a).bind fun _ _ hcd => (Space.Renamed.requirePoint hcd).bind fun _ _ _ =>
      (h.shows.resolve b).bind fun _ _ hcd => (Space.Renamed.requirePoint hcd).bind fun _ _ _ =>
        .ok (h.shows.findLink?_eq hρ.bijective.injective a b label oriented)
  refine (agreesAt_look h hfound).bind fun found found' sp flat hfound h => ?_
  subst hfound
  cases found with
  | some edge => exact agreesAt_pure h rfl
  | none => exact createChecked_agreesAt hρ h

theorem linkAtom_agreesAt {e a : CellId} :
    AgreesAt ρ (Overlays base p ρ) Eq (Space.linkAtom e a) (Space.linkAtom (ρ e) (ρ a)) sp
      flat := by
  refine agreesAt_decide h ?_
  refine (h.shows.resolve e).bind_ok fun c x hcx _ hx => ?_
  refine (h.shows.resolve a).bind_ok fun d y hdy _ hy => ?_
  refine (Space.Renamed.requireNameable hcx hdy).bind_ok fun _ _ _ _ hname => ?_
  rw [(h.shows.atomsOf e).contains_eq]
  split
  · exact .error (.duplicateAtomLink e a)
  · next hnew =>
    refine .ok ⟨rfl, h.linkAtom hρ (Space.resolve_eq_ok.mp hx) (Space.resolve_eq_ok.mp hy) hname ?_⟩
    exact fun hmem => hnew ((h.shows.atomsOf e a).mp hmem)

theorem delete_agreesAt (hspare : base.owns id = false) :
    AgreesAt ρ (Overlays base p ρ) Eq (Space.delete id) (Space.delete (ρ id)) sp flat := by
  refine agreesAt_decide h ((requireOwned_agrees h hspare).bind fun _ _ hown => ?_)
  rw [h.any_eq hspare fun _ _ hcd => hcd.isLive_eq]
  split
  · exact .ok ⟨rfl, h.deleteAt hρ hspare hown⟩
  · exact .ok ⟨rfl, h⟩

theorem modifyCell_agreesAt {f : Cell → Cell} (hspare : base.owns id = false)
    (hform : ∀ c, (f c).form = c.form) (hf : ∀ c d, c.Renamed ρ d → (f c).Renamed ρ (f d)) :
    AgreesAt ρ (Overlays base p ρ) Eq (Space.modifyCell id f) (Space.modifyCell (ρ id) f) sp
      flat :=
  agreesAt_decide h ((requireOwned_agrees h hspare).bind fun _ _ hown =>
    .ok ⟨rfl, h.modifyAt hρ hspare hown hform hf⟩)

theorem buildIndex_agreesAt (hbase : base.Consistent)
    (hcofaces : ∀ c x, x ∈ base.cofacesOf c ↔ base.Coface c x) :
    AgreesAt ρ (Overlays base p ρ) Eq Space.buildIndex Space.buildIndex sp flat :=
  ⟨.ok rfl, h.buildIndex hρ hbase hcofaces⟩

/-- **One request is answered alike on both sides.** -/
theorem Request.agreesAt (hbase : base.Consistent)
    (hcofaces : ∀ c x, x ∈ base.cofacesOf c ↔ base.Coface c x) (request : Request)
    (hspare : request.Spares base) :
    AgreesAt ρ (Overlays base p ρ) (fun x y => y = x.map ρ) request.edit
      (request.rename ρ).edit sp flat := by
  have hcell : ∀ {e e' : Edit CellId},
      AgreesAt ρ (Overlays base p ρ) (fun x y => y = ρ x) e e' sp flat →
        AgreesAt ρ (Overlays base p ρ) (fun x y => y = x.map ρ) (do return some (← e))
          (do return some (← e')) sp flat :=
    fun he => he.bind fun x y _ _ hxy hsim => agreesAt_pure hsim (congrArg some hxy)
  have hunit : ∀ {e e' : Edit Unit}, AgreesAt ρ (Overlays base p ρ) Eq e e' sp flat →
      AgreesAt ρ (Overlays base p ρ) (fun x y => y = x.map ρ) (do e; return none)
        (do e'; return none) sp flat :=
    fun he => he.bind fun _ _ _ _ _ hsim => agreesAt_pure hsim rfl
  cases request with
  | create label boundary => exact hcell (createChecked_agreesAt hρ h)
  | createListing label boundary => exact hcell (createChecked_agreesAt hρ h)
  | link a b label oriented => exact hcell (link_agreesAt hρ h)
  | linkAtom expansion atom => exact hunit (linkAtom_agreesAt hρ h)
  | delete id => exact hunit (delete_agreesAt hρ h hspare)
  | setLabel id label =>
    refine hunit (modifyCell_agreesAt hρ h hspare (fun _ => rfl) fun c d hcd => ?_)
    exact ⟨hcd.id, hcd.dimension, rfl, hcd.boundary, hcd.closure, hcd.deleted, hcd.embedding,
      hcd.handler⟩
  | setEmbedding id embedding =>
    refine hunit (modifyCell_agreesAt hρ h hspare (fun _ => rfl) fun c d hcd => ?_)
    exact ⟨hcd.id, hcd.dimension, hcd.label, hcd.boundary, hcd.closure, hcd.deleted, rfl,
      hcd.handler⟩
  | buildIndex => exact hunit (buildIndex_agreesAt hρ h hbase hcofaces)

/-- **Any number of requests keep both sides in step.** -/
theorem Space.after_overlays (hbase : base.Consistent)
    (hcofaces : ∀ c x, x ∈ base.cofacesOf c ↔ base.Coface c x) (requests : List Request)
    (hspare : ∀ request ∈ requests, request.Spares base) :
    Overlays base p ρ (sp.after requests) (flat.after (requests.map (Request.rename ρ))) := by
  induction requests generalizing sp flat with
  | nil => exact h
  | cons request rest ih =>
    have hone := request.agreesAt hρ h hbase hcofaces (hspare request List.mem_cons_self)
    exact ih hone.after fun r hr => hspare r (List.mem_cons_of_mem _ hr)

end Edits

/-- **A store over another is like one store.** Let a store be written over a reachable `base` whose
index is fresh, and let a copy of `base` be asked the same by other names, where the cells of the
upper store come behind those of `base`. After any number of requests, failing ones among them, both
show the same cells, layers and relations and find the same labels and edges, and every further
request is answered alike. -/
theorem overlay_renamed {base : Store} (hbase : base.Reachable) (hfresh : base.isStale = false)
    {p : Nat} {ρ : CellId → CellId} (hρ : Grafts base p ρ) {requests : List Request}
    (hspare : ∀ request ∈ requests, request.Spares base) :
    let upper := Space.after ⟨.empty p, [base]⟩ requests
    let flat := Space.after (.ofStore base) (requests.map (Request.rename ρ))
    upper.Renamed ρ flat ∧
      (∀ label, Outcome.Agrees ρ (fun x y => y = ρ x) (upper.byLabel label) (flat.byLabel label)) ∧
      (∀ a b label oriented, flat.findLink? (ρ a) (ρ b) label oriented =
        (upper.findLink? a b label oriented).map ρ) ∧
      ∀ request : Request, request.Spares base →
        Outcome.Agrees ρ (fun x y => y = x.map ρ) (request.edit.apply upper).1
          ((request.rename ρ).edit.apply flat).1 := by
  intro upper flat
  have hcofaces : ∀ c x, x ∈ base.cofacesOf c ↔ base.Coface c x :=
    fun c x => hbase.mem_cofacesOf hfresh
  have h : Overlays base p ρ upper flat :=
    Space.after_overlays hρ (overlays_start hρ hbase.consistent hcofaces) hbase.consistent hcofaces
      requests hspare
  exact ⟨h.shows, h.shows.byLabel, h.shows.findLink?_eq hρ.bijective.injective,
    fun request hrequest => (request.agreesAt hρ h hbase.consistent hcofaces hrequest).result⟩

/-- A store with two points and an edge, indexed. -/
def pond : Store :=
  runAll (.empty 0) [.create "frog" [], .create "animal" [], .create "is" [⟨0, 0⟩, ⟨0, 1⟩],
    .buildIndex]

/-- A point and an edge to it are made over the store, an edge that is there is asked for, and the
new point is deleted. -/
def pondRequests : List Request :=
  [.create "toad" [], .link ⟨1, 0⟩ ⟨0, 1⟩ "is" true, .link ⟨0, 0⟩ ⟨0, 1⟩ "is" true,
    .delete ⟨1, 0⟩]

/-- The new edge runs over a cell of each store, and over cells three and one of the copy. -/
theorem overlay_renamed_pond :
    let upper := Space.after ⟨.empty 1, [pond]⟩ pondRequests
    let flat := Space.after (.ofStore pond) (pondRequests.map (Request.rename (graft pond 1)))
    upper.Renamed (graft pond 1) flat ∧
      ∃ d, flat.find? ⟨0, 4⟩ = some d ∧ d.boundary = [⟨0, 3⟩, ⟨0, 1⟩] := by
  intro upper flat
  have hreach : pond.Reachable := (Store.Reachable.empty 0).runAll _
  have hnew : pond.owns ⟨1, 0⟩ = false := rfl
  have hspare : ∀ request ∈ pondRequests, request.Spares pond := by
    simpa [pondRequests, Request.Spares] using hnew
  have hρ : Grafts pond 1 (graft pond 1) := grafts_graft (by decide)
  obtain ⟨hshows, _⟩ := overlay_renamed hreach (by decide) hρ hspare
  refine ⟨hshows, ?_⟩
  have hedge : (upper.lookup.find ⟨1, 1⟩).map Cell.boundary = some [⟨1, 0⟩, ⟨0, 1⟩] := rfl
  rcases hshows.find.find_cases ⟨1, 1⟩ with ⟨hnone, _⟩ | ⟨c, d, hc, hd, hcd⟩
  · rw [hnone] at hedge
    cases hedge
  · rw [hc] at hedge
    have hboundary : c.boundary = [⟨1, 0⟩, ⟨0, 1⟩] := Option.some.inj hedge
    exact ⟨d, hd, by rw [hcd.boundary, hboundary]; rfl⟩

end CellComplex
