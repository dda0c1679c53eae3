import Kasane.Blob.Settled
import Mathlib.Logic.Function.Basic

namespace Kasane.Blob.BlobStore

open BigEndian Word

variable {ι : Type} {s s' : BlobStore} {f g : ι → Option BlobPtr}

-- every slot that names a blob has a live one of its own
structure Tenants (s : BlobStore) (f : ι → Option BlobPtr) : Prop where
  sound : s.Sound
  held : ∀ i ptr, f i = some ptr → ∃ data, s.Holds ptr data
  apart : ∀ i j ptr q, f i = some ptr → f j = some q → i ≠ j → ptr.key ≠ q.key

def Freed (s : BlobStore) (ptr : BlobPtr) : Prop :=
  s.allocTable.get ptr.key = some ⟨ptr.gen, .free⟩

def KnownAs (s : BlobStore) (ptr : BlobPtr) : Prop :=
  ∃ state, s.allocTable.get ptr.key = some ⟨ptr.gen, state⟩

theorem tenants_empty : empty.Tenants (fun _ : ι => none) where
  sound := sound_empty
  held := fun _ _ h => absurd h (by simp)
  apart := fun _ _ _ _ h => absurd h (by simp)

theorem Tenants.vacate (h : s.Tenants f) (hg : ∀ i ptr, g i = some ptr → f i = some ptr) :
    s.Tenants g where
  sound := h.sound
  held := fun i ptr hi => h.held i ptr (hg i ptr hi)
  apart := fun i j ptr q hi hj => h.apart i j ptr q (hg i ptr hi) (hg j q hj)

theorem Tenants.place [DecidableEq ι] {grow : Nat → Bool} {data : Bytes} {ptr : BlobPtr} (h : s.Tenants f)
    (hstore : s.storeBytes grow data = (.ok ptr, s')) (i : ι) :
    s'.Tenants (Function.update f i (some ptr)) := by
  obtain ⟨hp, hlen, harena⟩ := storeBytes_ok hstore
  have hfresh (j : ι) (q : BlobPtr) (hq : f j = some q) : ptr.key ≠ q.key := by
    obtain ⟨held, hheld⟩ := h.held j q hq
    exact key_ne_of_placed h.sound hheld hp
  refine ⟨sound_of_placed h.sound hp, ?_, ?_⟩
  · intro j q hq
    rw [Function.update_apply] at hq
    split_ifs at hq
    · obtain rfl := Option.some.inj hq
      exact ⟨data, holds_storeBytes hstore⟩
    · obtain ⟨held, hheld⟩ := h.held j q hq
      exact ⟨held, holds_of_placed h.sound hheld hp hlen (Or.inr harena)⟩
  · intro j k q r hq hr hne
    rw [Function.update_apply] at hq hr
    split_ifs at hq hr with hj hk hk
    · exact absurd (hj.trans hk.symm) hne
    · obtain rfl := Option.some.inj hq
      exact hfresh k r hr
    · obtain rfl := Option.some.inj hr
      exact (hfresh j q hq).symm
    · exact h.apart j k q r hq hr hne

theorem Tenants.knownAs (h : s.Tenants f) {i : ι} {ptr : BlobPtr} (hi : f i = some ptr) :
    s.KnownAs ptr := by
  obtain ⟨data, hheld⟩ := h.held i ptr hi
  exact ⟨.used, hheld.entry⟩

theorem reclaim_of_knownAs {ptr : BlobPtr} (h : s.KnownAs ptr) :
    ∃ t, s.reclaimForPrune ptr = .ok t := by
  obtain ⟨state, hget⟩ := h
  rw [reclaimForPrune, hget]
  cases state <;> simp

theorem KnownAs.restated {ptr q : BlobPtr} {state : BlobState} (h : s.KnownAs q)
    (hr : Restated s s' ptr state) : s'.KnownAs q := by
  obtain ⟨old, hold⟩ := hr.entry
  obtain ⟨was, hwas⟩ := h
  rw [KnownAs, hr.table]
  simp only [OrdMap.get_insert]
  split_ifs with hkey
  · rw [hkey, hold] at hwas
    obtain ⟨hgen, -⟩ := AllocEntry.mk.inj (Option.some.inj hwas)
    exact ⟨state, by rw [hgen]⟩
  · exact ⟨was, hwas⟩

theorem Freed.restated {ptr q : BlobPtr} (h : s.Freed q) (hr : Restated s s' ptr .free) :
    s'.Freed q := by
  obtain ⟨old, hold⟩ := hr.entry
  rw [Freed, hr.table, OrdMap.get_insert]
  split_ifs with hkey
  · rw [Freed, hkey, hold] at h
    obtain ⟨hgen, -⟩ := AllocEntry.mk.inj (Option.some.inj h)
    rw [hgen]
  · exact h

-- what reclaiming a list of blobs does to the store
structure Reclaims (ptrs : List BlobPtr) (s t : BlobStore) : Prop where
  sound : s.Sound → t.Sound
  freed : ∀ ptr ∈ ptrs, t.Freed ptr
  stillFreed : ∀ q, s.Freed q → t.Freed q
  holds : ∀ q data, (∀ ptr ∈ ptrs, ptr.key ≠ q.key) → s.Holds q data → t.Holds q data

theorem reclaims_all {ptrs : List BlobPtr} (h : ∀ ptr ∈ ptrs, s.KnownAs ptr) :
    ∃ t, ptrs.foldlM reclaimForPrune s = .ok t ∧ Reclaims ptrs s t := by
  induction ptrs generalizing s with
  | nil => exact ⟨s, rfl, id, by simp, fun _ hq => hq, fun _ _ _ hq => hq⟩
  | cons ptr ptrs ih =>
      obtain ⟨hptr, hptrs⟩ := List.forall_mem_cons.mp h
      obtain ⟨u, hu⟩ := reclaim_of_knownAs hptr
      have hr := reclaimForPrune_ok hu
      have hfreed : u.Freed ptr := by
        rw [Freed, hr.table]
        exact (OrdMap.get_insert ..).trans (if_pos rfl)
      obtain ⟨t, ht, hrest⟩ := ih (fun q hq => (hptrs q hq).restated hr)
      refine ⟨t, ?_, ?_, ?_, ?_, ?_⟩
      · rw [List.foldlM_cons, hu]
        exact ht
      · exact fun hs => hrest.sound (sound_of_restated hs hr)
      · intro q hq
        rcases List.mem_cons.mp hq with rfl | hq
        · exact hrest.stillFreed q hfreed
        · exact hrest.freed q hq
      · exact fun q hq => hrest.stillFreed q (hq.restated hr)
      · intro q data hne hq
        obtain ⟨hkey, hkeys⟩ := List.forall_mem_cons.mp hne
        exact hrest.holds q data hkeys (holds_of_restated hq hr (fun hsame _ => hkey hsame))

theorem Tenants.reclaimed {ptrs : List BlobPtr} (h : s.Tenants f)
    (hapart : ∀ i q, f i = some q → ∀ ptr ∈ ptrs, ptr.key ≠ q.key) (hr : Reclaims ptrs s s') :
    s'.Tenants f where
  sound := hr.sound h.sound
  held := by
    intro i q hq
    obtain ⟨data, hheld⟩ := h.held i q hq
    exact ⟨data, hr.holds q data (hapart i q hq) hheld⟩
  apart := h.apart

end Kasane.Blob.BlobStore
