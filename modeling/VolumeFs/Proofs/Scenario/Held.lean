import VolumeFs.Proofs.Volume.Held
import VolumeFs.Scenario.Run

/-!
# Descriptors held by a world

The streams and listings of a world hold their descriptors under names. Whatever is done with one
of them, and also when it is let go of or loses its name to another one, what they hold together is
what is open.
-/

namespace VolumeFs.Scenario

namespace Slots

variable {α : Type} {slots : Slots α} {name : String} {a : α} {holds : α → Multiset Fd}
  {proper : α → Prop}

def held (holds : α → Multiset Fd) (slots : Slots α) : Multiset Fd :=
  (slots.map fun slot => holds slot.2).sum

/-- All objects are in order, and each has a name of its own. -/
structure Proper (proper : α → Prop) (slots : Slots α) : Prop where
  nodup : (slots.map Prod.fst).Nodup
  forall_mem : ∀ slot ∈ slots, proper slot.2

theorem proper_nil : Proper proper [] := ⟨List.nodup_nil, nofun⟩

private theorem Proper.erase (h : slots.Proper proper) (name : String) :
    (slots.erase name).Proper proper where
  nodup := h.nodup.sublist (List.filter_sublist.map _)
  forall_mem slot hslot := h.forall_mem slot (List.mem_of_mem_filter hslot)

private theorem Proper.set (h : slots.Proper proper) (name : String) (ha : proper a) :
    (slots.set name a).Proper proper where
  nodup := by
    rw [Slots.set, List.map_cons, List.nodup_cons]
    refine ⟨?_, (h.erase name).nodup⟩
    rintro hmem
    obtain ⟨slot, hslot, hname⟩ := List.mem_map.1 hmem
    simpa [hname] using List.of_mem_filter hslot
  forall_mem := by
    rintro slot hslot
    rcases List.mem_cons.1 hslot with rfl | hslot
    · exact ha
    · exact (h.erase name).forall_mem slot hslot

private theorem held_set (slots : Slots α) (name : String) (a : α) :
    (slots.set name a).held holds = holds a + (slots.erase name).held holds := rfl

private theorem erase_of_notMem (h : name ∉ slots.map Prod.fst) : slots.erase name = slots := by
  rw [Slots.erase, List.filter_eq_self]
  intro slot hslot
  rw [decide_eq_true_iff]
  rintro rfl
  exact h (List.mem_map_of_mem hslot)

private theorem erase_of_get?_none (h : slots.get? name = none) : slots.erase name = slots := by
  apply erase_of_notMem
  rw [Slots.get?, List.lookup_eq_none_iff] at h
  intro hmem
  obtain ⟨slot, hslot, rfl⟩ := List.mem_map.1 hmem
  exact absurd (h slot hslot) (by simp)

private theorem Proper.of_get? (h : slots.Proper proper) (holds : α → Multiset Fd)
    (hget : slots.get? name = some a) :
    proper a ∧ slots.held holds = holds a + (slots.erase name).held holds := by
  induction slots with
  | nil => cases hget
  | cons slot slots ih =>
    obtain ⟨first, b⟩ := slot
    obtain ⟨hfresh, hnodup⟩ := List.nodup_cons.1 h.nodup
    have hrest : Proper proper slots :=
      ⟨hnodup, fun slot hslot => h.forall_mem slot (List.mem_cons_of_mem _ hslot)⟩
    rw [Slots.get?, List.lookup_cons] at hget
    by_cases hname : name = first
    · subst hname
      rw [beq_self_eq_true] at hget
      cases hget
      have herase : Slots.erase ((name, a) :: slots) name = slots := by
        rw [Slots.erase, List.filter_cons_of_neg (by simp)]
        exact erase_of_notMem hfresh
      rw [herase]
      exact ⟨h.forall_mem _ List.mem_cons_self, rfl⟩
    · rw [beq_eq_false_iff_ne.2 hname] at hget
      obtain ⟨ha, hheld⟩ := ih hrest hget
      have herase : Slots.erase ((first, b) :: slots) name =
          (first, b) :: Slots.erase slots name := by
        rw [Slots.erase, List.filter_cons_of_pos (by simpa using Ne.symm hname)]
        rfl
      refine ⟨ha, ?_⟩
      rw [herase]
      show holds b + held holds slots = holds a + (holds b + held holds (Slots.erase slots name))
      rw [hheld, add_left_comm]

variable {σ : Type} {opened : Multiset Fd → σ → Prop} {fds : Multiset Fd} {s : σ}

/-- Objects in order that hold what is open, beside what others hold. -/
structure Owns (proper : α → Prop) (holds : α → Multiset Fd) (opened : Multiset Fd → σ → Prop)
    (fds : Multiset Fd) (slots : Slots α) (s : σ) : Prop where
  proper : slots.Proper proper
  opened : opened (slots.held holds + fds) s

theorem Owns.of_get? (h : slots.Owns proper holds opened fds s) (hget : slots.get? name = some a) :
    proper a ∧ opened (holds a + ((slots.erase name).held holds + fds)) s := by
  obtain ⟨ha, hheld⟩ := h.proper.of_get? holds hget
  have hs := h.opened
  rw [hheld, add_assoc] at hs
  exact ⟨ha, hs⟩

private theorem Owns.set (name : String) (h : slots.Proper proper) (ha : proper a)
    (hs : opened (holds a + ((slots.erase name).held holds + fds)) s) :
    (slots.set name a).Owns proper holds opened fds s where
  proper := h.set name ha
  opened := by rwa [held_set, add_assoc]

private theorem Owns.erase (h : slots.Proper proper)
    (hs : opened ((slots.erase name).held holds + fds) s) :
    (slots.erase name).Owns proper holds opened fds s := ⟨h.erase name, hs⟩

private theorem Owns.replace (name : String) {drop : α → σ → σ}
    (hdrop : ∀ {a fds s}, proper a → opened (holds a + fds) s → opened fds (drop a s))
    (h : slots.Proper proper) (ha : proper a) (hs : opened (holds a + (slots.held holds + fds)) s) :
    (slots.set name a).Owns proper holds opened fds
      (match slots.get? name with
        | some old => drop old s
        | none => s) := by
  cases hget : slots.get? name with
  | none =>
    refine .set name h ha ?_
    rwa [erase_of_get?_none hget]
  | some old =>
    obtain ⟨hold, hheld⟩ := h.of_get? holds hget
    refine .set name h ha (hdrop hold ?_)
    rwa [hheld, add_assoc, add_left_comm] at hs

end Slots

namespace World

/-- The descriptors that live streams and listings hold together. -/
def held (w : World) : Multiset Fd :=
  w.outputs.held Output.held + w.readers.held (·.1.held) + w.listings.held Listing.held

structure Orderly (w : World) : Prop where
  outputs : w.outputs.Proper Output.IsProper
  readers : w.readers.Proper (·.1.IsProper)
  listings : w.listings.Proper fun _ => True

/-- A world whose objects hold what is open. -/
structure Owns (opened : Multiset Fd → WorldStore → Prop) (w : World) : Prop extends w.Orderly where
  opened : opened w.held w.store

variable {opened : Multiset Fd → WorldStore → Prop} {w : World} {name : String} {s : WorldStore}

theorem Orderly.of_eq (hw : w.Orderly) (w' : World) (houtputs : w'.outputs = w.outputs)
    (hreaders : w'.readers = w.readers) (hlistings : w'.listings = w.listings) : w'.Orderly :=
  ⟨houtputs ▸ hw.outputs, hreaders ▸ hw.readers, hlistings ▸ hw.listings⟩

theorem Orderly.owns_of_eq {w' : World} (hw : w.Orderly) (hs : opened w.held w'.store)
    (houtputs : w'.outputs = w.outputs) (hreaders : w'.readers = w.readers)
    (hlistings : w'.listings = w.listings) : w'.Owns opened where
  toOrderly := hw.of_eq w' houtputs hreaders hlistings
  opened := by
    rwa [World.held, houtputs, hreaders, hlistings]

def besideOutputs (w : World) : Multiset Fd :=
  w.readers.held (·.1.held) + w.listings.held Listing.held

private theorem held_eq_outputs (w : World) :
    w.held = w.outputs.held Output.held + w.besideOutputs := add_assoc _ _ _

theorem Owns.ofOutputs (hw : w.Owns opened) :
    w.outputs.Owns Output.IsProper Output.held opened w.besideOutputs w.store :=
  ⟨hw.outputs, w.held_eq_outputs ▸ hw.opened⟩

private theorem Orderly.withOutputs (hw : w.Orderly) {slots : Slots Output}
    (h : slots.Owns Output.IsProper Output.held opened w.besideOutputs s) :
    Owns opened { w with store := s, outputs := slots } where
  outputs := h.proper
  readers := hw.readers
  listings := hw.listings
  opened := by
    rw [held_eq_outputs]
    exact h.opened

theorem Orderly.putOutput (h : Book opened) (hw : w.Orderly) {o : Output}
    (ho : o.Owns opened w.held w.store) (name : String) : (w.putOutput name o).Owns opened := by
  obtain ⟨hproper, hs⟩ := Output.owns_iff.1 ho
  rw [held_eq_outputs] at hs
  have hdrop {o : Output} {fds : Multiset Fd} {s : WorldStore} (ho : o.IsProper)
      (hs : opened (o.held + fds) s) : opened fds (o.drop s) :=
    Output.Owns.drop h (Output.owns_iff.2 ⟨ho, hs⟩)
  have hreplace := Slots.Owns.replace name hdrop hw.outputs hproper hs
  have hput := hw.withOutputs hreplace
  unfold World.putOutput
  dsimp only
  generalize w.outputs.get? name = old at hput ⊢
  cases old <;> exact hput

private theorem Owns.useOutput (hw : w.Owns opened)
    {act : Output → WorldStore → Answer × Output × WorldStore}
    (hact : ∀ {o fds}, o.Owns opened fds w.store →
      (act o w.store).2.1.Owns opened fds (act o w.store).2.2) :
    (w.useOutput name act).2.Owns opened := by
  unfold World.useOutput
  split
  · exact hw
  · rename_i o hget
    obtain ⟨hproper, hs⟩ := Output.owns_iff.1
      (hact (Output.owns_iff.2 (hw.ofOutputs.of_get? hget)))
    exact hw.withOutputs (.set _ hw.outputs hproper hs)

private theorem Owns.callOutput {α : Type} (hw : w.Owns opened)
    {act : Output → WorldStore → Except VolumeError α × Output × WorldStore} {answer : α → Answer}
    (hact : ∀ {o fds}, o.Owns opened fds w.store →
      (act o w.store).2.1.Owns opened fds (act o w.store).2.2) :
    (w.callOutput name act answer).2.Owns opened :=
  hw.useOutput hact

theorem Owns.onOutput (h : Book opened) (hw : w.Owns opened) (action : OutputAction) :
    (w.onOutput action).2.Owns opened := by
  cases action with
  | new path flags mode offset size into =>
    have hopen := h.openHandle hw.opened path flags mode
    unfold World.onOutput
    dsimp only
    generalize Handle.openPath w.store path flags mode = result at hopen ⊢
    cases hopen with
    | @ok handle s hs =>
      have ho : (Output.direct (.new handle offset size)).Owns opened w.held s :=
        ⟨rfl, nofun, hs⟩
      exact (hw.of_eq { w with store := s } rfl rfl rfl).putOutput h ho into
    | error hs => exact hw.owns_of_eq hs rfl rfl rfl
  | newAtomic path temporaryPath size into =>
    unfold World.onOutput World.freshToken
    dsimp only
    generalize temporaryPath.getD _ = temporaryPath
    have hopen := h.openHandle hw.opened temporaryPath (.writeOnly ||| .create) 0o644
    generalize Handle.openPath w.store temporaryPath (.writeOnly ||| .create) 0o644 = result
      at hopen ⊢
    cases hopen with
    | @ok handle s hs =>
      have ho : (Output.atomic ⟨.new handle 0 size, temporaryPath, path, false⟩).Owns opened
          w.held s := ⟨rfl, nofun, hs⟩
      exact (hw.of_eq { w with store := s, tokens := w.tokens + 1 } rfl rfl rfl).putOutput
        h ho into
    | error hs => exact hw.owns_of_eq hs rfl rfl rfl
  | writeByte name byte =>
    exact hw.callOutput fun ho => .onWriter ((h.kept_holds _ _).writeByte ho byte)
  | writeBytes name bytes => exact hw.callOutput fun ho => ho.writeBytes h bytes
  | writeRange name bytes offset length =>
    refine hw.useOutput fun {o fds} ho => ?_
    cases o with
    | direct writer => exact (h.kept_holds _ _).writeRange ho bytes offset length
    | atomic a => exact ho
  | writeChunks name bytes chunk =>
    exact hw.callOutput fun ho => .onWriter ((h.kept_holds _ _).writeChunks ho bytes chunk)
  | flush name => exact hw.callOutput fun ho => ho.flush h
  | close name => exact hw.callOutput fun ho => ho.close h
  | abort name =>
    refine hw.useOutput fun {o fds} ho => ?_
    cases o with
    | direct writer => exact ho
    | atomic a => exact (h.abort_atomic ho).1
  | drop name =>
    unfold World.onOutput
    dsimp only
    split
    · exact hw
    · rename_i o hget
      have ho := Output.Owns.drop h (Output.owns_iff.2 (hw.ofOutputs.of_get? hget))
      exact hw.withOutputs (.erase hw.outputs ho)
  | streamWrite name bytes => exact hw.useOutput fun ho => ho.writeBytes h bytes
  | streamFlush name => exact hw.useOutput fun ho => ho.flush h
  | target name => exact hw.useOutput fun ho => ho
  | describe name => exact hw.useOutput fun ho => ho

def besideReaders (w : World) : Multiset Fd :=
  w.outputs.held Output.held + w.listings.held Listing.held

private theorem held_eq_readers (w : World) :
    w.held = w.readers.held (·.1.held) + w.besideReaders := by
  rw [World.held, besideReaders]
  ac_rfl

theorem Owns.ofReaders (hw : w.Owns opened) :
    w.readers.Owns (·.1.IsProper) (·.1.held) opened w.besideReaders w.store :=
  ⟨hw.readers, w.held_eq_readers ▸ hw.opened⟩

private theorem Orderly.withReaders (hw : w.Orderly) {slots : Slots (Reader × BufferHome)}
    (h : slots.Owns (·.1.IsProper) (·.1.held) opened w.besideReaders s) :
    Owns opened { w with store := s, readers := slots } where
  outputs := hw.outputs
  readers := h.proper
  listings := hw.listings
  opened := by
    rw [held_eq_readers]
    exact h.opened

theorem closeReader_eq (w : World) (reader : Reader) (home : BufferHome) :
    (w.closeReader reader home).2.1 = (reader.close w.store).2.2.1 ∧
      (w.closeReader reader home).2.2.store = (reader.close w.store).2.2.2 ∧
      (w.closeReader reader home).2.2.outputs = w.outputs ∧
      (w.closeReader reader home).2.2.readers = w.readers ∧
      (w.closeReader reader home).2.2.listings = w.listings := by
  unfold World.closeReader
  generalize reader.close w.store = result
  obtain ⟨answer, _ | buffer, reader', store⟩ := result
  · exact ⟨rfl, rfl, rfl, rfl, rfl⟩
  · cases home <;> exact ⟨rfl, rfl, rfl, rfl, rfl⟩

theorem Orderly.putReader (h : Book opened) (hw : w.Orderly) {r : Reader}
    (hr : r.Owns opened w.held w.store) (name : String) (home : BufferHome) :
    (w.putReader name r home).Owns opened := by
  have hdrop {slot : Reader × BufferHome} {fds : Multiset Fd} {s : WorldStore}
      (hproper : slot.1.IsProper) (hs : opened (slot.1.held + fds) s) :
      opened fds (slot.1.close s).2.2.2 :=
    (Reader.Owns.close h ⟨hproper, hs⟩).2
  have hs := hr.opened
  rw [held_eq_readers] at hs
  have hreplace := Slots.Owns.replace (a := (r, home)) name hdrop hw.readers hr.isProper hs
  have hput := hw.withReaders hreplace
  unfold World.putReader
  dsimp only
  generalize w.readers.get? name = old at hput ⊢
  cases old with
  | none => exact hput
  | some old =>
    obtain ⟨-, hstore, houtputs, hreaders, hlistings⟩ :=
      closeReader_eq { w with readers := w.readers.set name (r, home) } old.1 old.2
    refine hput.toOrderly.owns_of_eq ?_ houtputs hreaders hlistings
    rw [hstore]
    exact hput.opened

private theorem Owns.useReader (hw : w.Owns opened)
    {act : Reader → WorldStore → Answer × Reader × WorldStore}
    (hact : ∀ {r fds}, r.Owns opened fds w.store →
      (act r w.store).2.1.Owns opened fds (act r w.store).2.2) :
    (w.useReader name act).2.Owns opened := by
  unfold World.useReader
  split
  · exact hw
  · rename_i r home hget
    obtain ⟨hproper, hs⟩ := hw.ofReaders.of_get? hget
    have hr := hact ⟨hproper, hs⟩
    exact hw.withReaders (.set _ hw.readers hr.isProper hr.opened)

theorem Owns.onReader (h : Book opened) (hw : w.Owns opened) (action : ReaderAction) :
    (w.onReader action).2.Owns opened := by
  cases action with
  | new path flags mode size into =>
    have hopen := h.openHandle hw.opened path flags mode
    unfold World.onReader
    dsimp only
    generalize Handle.openPath w.store path flags mode = result at hopen ⊢
    cases hopen with
    | @ok handle s hs =>
      dsimp only
      generalize w.pool.acquire size = acquired
      obtain ⟨buffer, pool⟩ := acquired
      have hr : (Reader.new handle buffer).Owns opened w.held s := ⟨rfl, hs⟩
      exact (hw.of_eq { w with store := s, pool } rfl rfl rfl).putReader h hr into .spare
    | error hs => exact hw.owns_of_eq hs rfl rfl rfl
  | readByte name => exact hw.useReader fun hr => hr.readByte h
  | read name length => exact hw.useReader fun hr => hr.read h (markedBuffer length)
  | readAll name length =>
    unfold World.onReader
    dsimp only
    generalize readAllLimit = limit
    exact hw.useReader fun hr => hr.readAll h (markedBuffer length) limit .empty []
  | readInto name size offset length =>
    exact hw.useReader fun hr => hr.readInto h (markedBuffer size) offset length
  | seek name position => exact hw.useReader fun hr => hr.seek position
  | position name => exact hw.useReader fun hr => hr
  | streamRead name length => exact hw.useReader fun hr => hr.read h (markedBuffer length)
  | streamSeek name whence distance =>
    exact hw.useReader fun hr => hr.streamSeek h whence distance
  | close name =>
    unfold World.onReader
    dsimp only
    split
    · exact hw
    · rename_i r home hget
      obtain ⟨hproper, hs⟩ := hw.ofReaders.of_get? hget
      obtain ⟨hclosed, -⟩ := Reader.Owns.close h ⟨hproper, hs⟩
      have hset := hw.withReaders (.set name (a := ((r.close w.store).2.2.1, home))
        hw.readers hclosed.isProper hclosed.opened)
      obtain ⟨hreader, hstore, houtputs, hreaders, hlistings⟩ := w.closeReader_eq r home
      refine hset.toOrderly.owns_of_eq ?_ houtputs ?_ hlistings
      · show opened _ (w.closeReader r home).2.2.store
        rw [hstore]
        exact hset.opened
      · show (w.closeReader r home).2.2.readers.set name ((w.closeReader r home).2.1, home) = _
        rw [hreaders, hreader]
  | drop name =>
    unfold World.onReader
    dsimp only
    split
    · exact hw
    · rename_i r home hget
      obtain ⟨hproper, hs⟩ := hw.ofReaders.of_get? hget
      obtain ⟨-, hclosed⟩ := Reader.Owns.close h ⟨hproper, hs⟩
      have herased := hw.withReaders (.erase hw.readers hclosed)
      obtain ⟨-, hstore, houtputs, hreaders, hlistings⟩ := w.closeReader_eq r home
      refine herased.toOrderly.owns_of_eq ?_ houtputs ?_ hlistings
      · show opened _ (w.closeReader r home).2.2.store
        rw [hstore]
        exact herased.opened
      · show (w.closeReader r home).2.2.readers.erase name = _
        rw [hreaders]

def besideListings (w : World) : Multiset Fd :=
  w.outputs.held Output.held + w.readers.held (·.1.held)

private theorem held_eq_listings (w : World) :
    w.held = w.listings.held Listing.held + w.besideListings := add_comm _ _

theorem Owns.ofListings (hw : w.Owns opened) :
    w.listings.Owns (fun _ => True) Listing.held opened w.besideListings w.store :=
  ⟨hw.listings, w.held_eq_listings ▸ hw.opened⟩

private theorem Orderly.withListings (hw : w.Orderly) {slots : Slots Listing}
    (h : slots.Owns (fun _ => True) Listing.held opened w.besideListings s) :
    Owns opened { w with store := s, listings := slots } where
  outputs := hw.outputs
  readers := hw.readers
  listings := h.proper
  opened := by
    rw [held_eq_listings]
    exact h.opened

theorem Owns.putListing (h : Book opened) (hw : w.Owns opened) {l : Listing} (hl : l.held = 0)
    (name : String) : (w.putListing name l).Owns opened := by
  have hs : opened (l.held + (w.listings.held Listing.held + w.besideListings)) w.store := by
    rw [hl, zero_add, ← held_eq_listings]
    exact hw.opened
  have hdrop {l : Listing} {fds : Multiset Fd} {s : WorldStore} (_ : True)
      (hs : opened (l.held + fds) s) : opened fds (l.drop s) := Listing.opened_drop h hs
  have hreplace := Slots.Owns.replace (a := l) name hdrop hw.listings trivial hs
  have hput := hw.withListings hreplace
  unfold World.putListing
  dsimp only
  generalize w.listings.get? name = old at hput ⊢
  cases old <;> exact hput

private theorem opened_nextResults (h : Book opened) {l : Listing} {fds : Multiset Fd}
    (hs : opened (l.held + fds) s) (count : Nat) :
    opened ((nextResults l s count).2.1.held + fds) (nextResults l s count).2.2 := by
  induction count generalizing l s with
  | zero => exact hs
  | succ count ih => exact ih (Listing.opened_next h hs _)

theorem Owns.onListing (h : Book opened) (hw : w.Owns opened) (action : ListingAction) :
    (w.onListing action).2.Owns opened := by
  cases action with
  | new path batchSize into => exact hw.putListing h (Listing.held_new _ _ _ _) into
  | next name count =>
    unfold World.onListing
    dsimp only
    split
    · exact hw
    · rename_i l hget
      have hs := (hw.ofListings.of_get? hget).2
      exact hw.withListings (.set _ hw.listings trivial (opened_nextResults h hs count))
  | toList name =>
    unfold World.onListing
    dsimp only
    split
    · exact hw
    · rename_i l hget
      have hs := (hw.ofListings.of_get? hget).2
      exact hw.withListings (.erase hw.listings (Listing.opened_toList h hs _))
  | drop name =>
    unfold World.onListing
    dsimp only
    split
    · exact hw
    · rename_i l hget
      have hs := (hw.ofListings.of_get? hget).2
      exact hw.withListings (.erase hw.listings (Listing.opened_drop h hs))

end World
end VolumeFs.Scenario
