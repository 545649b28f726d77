import VolumeFs.Proofs.Store.Traced
import VolumeFs.Proofs.Volume.Pages

/-!
# Requests for the next result

A request is answered from the results that are ready. Where there are none a page is read, the
first of its results is handed out, and the others are kept.
-/

namespace VolumeFs

open Memory Memory.Store

namespace ListingAnswer

def ofResults : List Status → ListingAnswer
  | [] => .finished
  | status :: _ => .item status

def item? : ListingAnswer → Option Status
  | item status => some status
  | _ => none

theorem item?_ofResults (results : List Status) : (ofResults results).item? = results.head? := by
  cases results <;> rfl

end ListingAnswer

namespace Listing

variable {l : Listing} {s : Store} {handle : Handle} {file : OpenFile} {dir : Ino} {steps : Nat}
  {children : Std.TreeMap String Ino} {page : List (String × Ino)}

theorem next_of_kept {σ : Type} [StoreClient σ] (s : σ) (steps : Nat)
    (h : l.ready = [] → l.state.isFinal = true) :
    l.next s steps = (.ofResults l.ready, { l with ready := l.ready.tail }, s) := by
  cases hready : l.ready with
  | nil =>
    have hkept : { l with ready := [] } = l := by rw [← hready]
    rw [next_of_final hready (h hready), List.tail_nil, hkept]
    rfl
  | cons status ready => exact next_of_ready hready

theorem next_of_idle (hstate : l.state = .idle) (hready : l.ready = []) (hreachable : Reachable s)
    (hs : s.Answers) (h : Listable s.tree dir children) (hlookup : s.tree.lookup l.path = .ok dir)
    (steps : Nat) : ∃ s' exchanges, l.next (Traced.mk s []) (steps + 1) =
        ({ l with state := .awaitingBatch ⟨⟨s.nextFd.toInt⟩, l.path⟩ } : Listing).next
          (Traced.mk s' exchanges) steps ∧
      Reachable s' ∧
      Turned s s' ⟨s.nextFd.toInt⟩ (some { ino := dir, flags := .readOnly }) 1 0 0 := by
  have hfinal : l.state.isFinal = false := by rw [hstate]; rfl
  obtain ⟨node, hnode, htype⟩ := h.exists_node_directory
  have hfile : (node.stat dir).isFile = false := isFile_stat_of_directory htype
  obtain ⟨s', hopen, hturned⟩ := h.openPath hs hlookup openMode
  have hreachable' :=
    hreachable.step_of_eq (.openPath l.path .readOnly openMode) (congrArg Prod.snd hopen)
  have hstep := step_of_directory (s := Traced.mk s []) hstate
    (Traced.noted_eq_iff.2 ⟨s, getAttr_of_lookup hs.isUp hlookup hnode, rfl⟩) hfile
    (Traced.noted_eq_iff.2 ⟨s', hopen, rfl⟩)
  exact ⟨s', _, next_of_step hready hfinal hstep, hreachable', hturned⟩

theorem next_of_gone (hstate : l.state = .awaitingBatch handle) (hready : l.ready = [])
    (hs : s.Answers) (hfile : s.openFile? handle.fd = some file) {code : Errno}
    (hgone : s.tree.children file.ino = .error code) (hsteps : 1 ≤ steps)
    (before : List Exchange) :
    ∃ e l' t, l.next (Traced.mk s before) steps = (.failed e, l', t) := by
  obtain ⟨steps, rfl⟩ : ∃ n, steps = n + 1 := ⟨steps - 1, by omega⟩
  have hfinal : l.state.isFinal = false := by rw [hstate]; rfl
  obtain ⟨s', hread⟩ : ∃ s', s.readdir handle.fd l.batchSize = (.error code, s') := by
    simp only [openFile?] at hfile
    simp only [Store.readdir, hs.isUp, hs.readdirError, openFile?, hfile, hgone]
    exact ⟨_, rfl⟩
  obtain ⟨e, l', t, hstep⟩ := step_of_refused hstate
    (s := Traced.mk s before) (Traced.noted_eq_iff.2 ⟨s', hread, rfl⟩)
  exact ⟨e, l'.giveUp, t, next_of_failure hready hfinal hstep⟩

section Page

variable (hstate : l.state = .awaitingBatch handle) (hready : l.ready = [])
  (hreachable : Reachable s) (hs : s.Answers) (h : Listable s.tree file.ino children)
  (hfile : s.openFile? handle.fd = some file)
  (hpage : (childrenAfter children file.cursor).take l.batchSize = page)
include hstate hready hreachable hs h hfile hpage

private theorem next_of_no_page (hnil : page = []) (hsteps : 1 ≤ steps) (before : List Exchange) :
    ∃ s' exchanges, l.next (Traced.mk s before) steps =
        (.finished, { l with state := .done }, ⟨s', exchanges⟩) ∧
      .readdir handle.fd l.batchSize (.ok []) ∈ exchanges ∧ Reachable s' ∧ s'.Answers := by
  obtain ⟨steps, rfl⟩ : ∃ n, steps = n + 1 := ⟨steps - 1, by omega⟩
  have hfinal : l.state.isFinal = false := by rw [hstate]; rfl
  obtain ⟨s₁, hread, hturned⟩ := h.readdir hs hfile l.batchSize
  rw [hpage, hnil, List.map_nil] at hread
  obtain ⟨s₂, hclose, hclosed⟩ := hturned.answers.close hturned.openFile?_self
  have hreachable₁ := hreachable.step_of_eq (.readdir _ _) (congrArg Prod.snd hread)
  have hreachable₂ := hreachable₁.step_of_eq (.close _) (congrArg Prod.snd hclose)
  have hstep := step_of_no_page hstate (Traced.readdir_of_eq (t := ⟨s, before⟩) hread)
    (Traced.close_of_eq hclose)
  rw [next_of_step hready hfinal hstep, next_of_kept _ _ fun _ => rfl, hready]
  exact ⟨s₂, _, rfl, by simp, hreachable₂, hclosed.answers⟩

private theorem next_of_short_page (hne : page ≠ []) (hshort : page.length < l.batchSize)
    (hsteps : 2 ≤ steps) (before : List Exchange) :
    ∃ s' exchanges, l.next (Traced.mk s before) steps =
        (.ofResults (page.filterMap (l.statusOf? s.tree)), { l with
          ready := (page.filterMap (l.statusOf? s.tree)).tail
          state := .done }, ⟨s', exchanges⟩) ∧
      .readdir handle.fd l.batchSize (.ok (page.map (direntOf s.tree))) ∈ exchanges ∧
      Reachable s' ∧ s'.Answers := by
  obtain ⟨steps, rfl⟩ : ∃ n, steps = n + 2 := ⟨steps - 2, by omega⟩
  have hfinal : l.state.isFinal = false := by rw [hstate]; rfl
  have hmem : ∀ c ∈ page, children[c.1]? = some c.2 := hpage ▸ fun _ => getElem?_of_mem_take
  obtain ⟨s₁, s₂, hread, hbatch, hturned⟩ := h.fetch hs hfile hpage
  obtain ⟨s₃, hclose, hclosed⟩ := hturned.answers.close hturned.openFile?_self
  have hreachable₁ := hreachable.step_of_eq (.readdir _ _) (congrArg Prod.snd hread)
  have hreachable₂ := hreachable₁.step_of_eq (.batchGetAttr _ _) (congrArg Prod.snd hbatch)
  have hreachable₃ := hreachable₂.step_of_eq (.close _) (congrArg Prod.snd hclose)
  have hread' := Traced.readdir_of_eq (t := ⟨s, before⟩) hread
  have hstep (exchanges : List Exchange) := step_of_short
    (l := { l with state := .resolving handle _ }) h hmem rfl
    (Traced.batchGetAttr_of_eq (t := ⟨s₁, exchanges⟩) hbatch) hshort (Traced.close_of_eq hclose)
  have hresolving : ({ l with state := .resolving handle (page.map (direntOf s.tree)) }
      : Listing).ready = [] := hready
  rw [next_of_step hready hfinal (step_of_page hstate hread' (by simpa using hne)),
    next_of_step hresolving rfl (hstep _), next_of_kept _ _ fun _ => rfl]
  simp only [hready, List.nil_append]
  exact ⟨s₃, _, rfl, by simp, hreachable₃, hclosed.answers⟩

private theorem next_of_full_page (hne : page ≠ []) (hfull : l.batchSize ≤ page.length)
    (hsteps : 2 ≤ steps) (before : List Exchange) :
    ∃ s' exchanges, l.next (Traced.mk s before) steps =
        (.ofResults (page.filterMap (l.statusOf? s.tree)), { l with
          ready := (page.filterMap (l.statusOf? s.tree)).tail }, ⟨s', exchanges⟩) ∧
      .readdir handle.fd l.batchSize (.ok (page.map (direntOf s.tree))) ∈ exchanges ∧
      Reachable s' ∧ s'.Answers ∧ s'.nextFd = s.nextFd ∧ ∀ last ∈ page.getLast?,
        s'.openFile? handle.fd = some { file with cursor := some last.1 } := by
  obtain ⟨steps, rfl⟩ : ∃ n, steps = n + 2 := ⟨steps - 2, by omega⟩
  have hfinal : l.state.isFinal = false := by rw [hstate]; rfl
  have hmem : ∀ c ∈ page, children[c.1]? = some c.2 := hpage ▸ fun _ => getElem?_of_mem_take
  obtain ⟨s₁, s₂, hread, hbatch, hturned⟩ := h.fetch hs hfile hpage
  have hreachable₁ := hreachable.step_of_eq (.readdir _ _) (congrArg Prod.snd hread)
  have hreachable₂ := hreachable₁.step_of_eq (.batchGetAttr _ _) (congrArg Prod.snd hbatch)
  have hread' := Traced.readdir_of_eq (t := ⟨s, before⟩) hread
  have hstep (exchanges : List Exchange) := step_of_full
    (l := { l with state := .resolving handle _ }) h hmem rfl
    (Traced.batchGetAttr_of_eq (t := ⟨s₁, exchanges⟩) hbatch) hfull
  have hkept : l.ready ++ page.filterMap (l.statusOf? s.tree) ≠ [] := by
    have hnames := l.map_name_filterMap_statusOf? h hmem
    rw [hready, List.nil_append]
    intro hempty
    rw [hempty, List.map_nil] at hnames
    exact hne (List.map_eq_nil_iff.1 hnames.symm)
  have hresolving : ({ l with state := .resolving handle (page.map (direntOf s.tree)) }
      : Listing).ready = [] := hready
  rw [next_of_step hready hfinal (step_of_page hstate hread' (by simpa using hne)),
    next_of_step hresolving rfl (hstep _), next_of_kept _ _ fun hnone => absurd hnone hkept]
  simp only [hready, hstate, List.nil_append]
  have hnext : s₂.nextFd = s.nextFd := hturned.nextFd.trans (Int32.add_zero _)
  refine ⟨s₂, _, rfl, by simp, hreachable₂, hturned.answers, hnext, fun last hlast => ?_⟩
  rw [hturned.openFile?_self, Option.mem_def.1 hlast, Option.map_some, Option.some_or]

/-- A request reads one page. The listing is over if the page is short. -/
theorem next_of_page (hb : 1 ≤ l.batchSize) (hsteps : 2 ≤ steps) (before : List Exchange) :
    ∃ s' exchanges, l.next (Traced.mk s before) steps =
        (.ofResults (page.filterMap (l.statusOf? s.tree)), { l with
          ready := (page.filterMap (l.statusOf? s.tree)).tail
          state := if page.length < l.batchSize then .done else .awaitingBatch handle },
        ⟨s', exchanges⟩) ∧
      .readdir handle.fd l.batchSize (.ok (page.map (direntOf s.tree))) ∈ exchanges ∧
      Reachable s' ∧ s'.Answers ∧ (l.batchSize ≤ page.length → s'.nextFd = s.nextFd ∧
        ∀ last ∈ page.getLast?,
          s'.openFile? handle.fd = some { file with cursor := some last.1 }) := by
  by_cases hshort : page.length < l.batchSize
  · have hfull : ¬ l.batchSize ≤ page.length := Nat.not_le.2 hshort
    rw [if_pos hshort]
    by_cases hnil : page = []
    · obtain ⟨s', exchanges, hnext, hread, hreachable', hs'⟩ :=
        next_of_no_page hstate hready hreachable hs h hfile hpage hnil (Nat.le_of_succ_le hsteps)
          before
      subst hnil
      rw [hnext, hready]
      exact ⟨s', exchanges, rfl, hread, hreachable', hs', fun hle => absurd hle hfull⟩
    · obtain ⟨s', exchanges, hnext, hread, hreachable', hs'⟩ :=
        next_of_short_page hstate hready hreachable hs h hfile hpage hnil hshort hsteps before
      exact ⟨s', exchanges, hnext, hread, hreachable', hs', fun hle => absurd hle hfull⟩
  · have hfull := Nat.not_lt.1 hshort
    have hne : page ≠ [] := List.ne_nil_of_length_pos (by omega)
    obtain ⟨s', exchanges, hnext, hread, hreachable', hs', hlast⟩ :=
      next_of_full_page hstate hready hreachable hs h hfile hpage hne hfull hsteps before
    rw [if_neg hshort, ← hstate]
    exact ⟨s', exchanges, hnext, hread, hreachable', hs', fun _ => hlast⟩

end Page

end Listing
end VolumeFs
