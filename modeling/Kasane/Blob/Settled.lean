import Kasane.Blob.ReadBack

namespace Kasane.Blob

open BigEndian Word

namespace BlobStore

def Dead (s : BlobStore) (ptr : BlobPtr) : Prop :=
  ∃ entry, s.allocTable.get ptr.key = some entry ∧
    (ptr.gen < entry.gen ∨ (entry.gen = ptr.gen ∧ entry.state = .free))

def Settled (s : BlobStore) (ptr : BlobPtr) : Prop :=
  (∃ data, s.Holds ptr data) ∨ s.Dead ptr

theorem not_read_of_dead {s : BlobStore} {ptr : BlobPtr} {data : Bytes} (h : s.Dead ptr) :
    s.read ptr ≠ .ok data := by
  obtain ⟨entry, hget, hlt | ⟨hgen, hstate⟩⟩ := h
  · have hne : entry.gen ≠ ptr.gen := (ne_of_lt hlt).symm
    simp [read, hget, hne]
  · simp [read, hget, hgen, hstate]

theorem dead_of_restated {s s' : BlobStore} {ptr q : BlobPtr} {state : BlobState} (h : s.Dead ptr)
    (hr : Restated s s' q state) (hstate : state = .free) : s'.Dead ptr := by
  obtain ⟨old, hold⟩ := hr.entry
  obtain ⟨entry, hget, hdead⟩ := h
  rw [Dead, hr.table]
  simp only [OrdMap.get_insert]
  split_ifs with hkey
  · rw [hkey, hold] at hget
    obtain rfl := Option.some.inj hget
    refine ⟨_, rfl, ?_⟩
    rcases hdead with hlt | ⟨hgen, -⟩
    · exact Or.inl hlt
    · exact Or.inr ⟨hgen, hstate⟩
  · exact ⟨entry, hget, hdead⟩

theorem dead_of_placed {s s' : BlobStore} {ptr q : BlobPtr} (hs : s.Sound) (h : s.Dead ptr)
    (hp : Placed s s' q) : s'.Dead ptr := by
  obtain ⟨entry, hget, hdead⟩ := h
  rw [Dead, hp.table]
  simp only [OrdMap.get_insert]
  split_ifs with hkey
  · refine ⟨_, rfl, Or.inl ?_⟩
    have hslot := hp.slot
    generalize s'.arenaEnd = e at hslot
    cases hslot with
    | reused g hfree hnext =>
        have hsame : s.allocTable.get ptr.key = some ⟨g, .free⟩ := hkey ▸ hfree
        obtain rfl := Option.some.inj (hget.symm.trans hsame)
        rcases hdead with hlt | ⟨hgen, -⟩
        · exact lt_of_lt_of_eq (Nat.lt_succ_of_lt hlt) hnext.symm
        · exact lt_of_le_of_lt (le_of_eq hgen.symm) (hnext ▸ Nat.lt_succ_self g)
    | fresh hat hfit hfirst =>
        have hin := hs.inside ptr.key entry hget
        have hpos : 0 < q.cls := lt_of_lt_of_le hp.len_pos hp.len_le
        have hoffset : ptr.key.offset = s.arenaEnd := (congrArg AllocKey.offset hkey).trans hat
        have hcls : ptr.key.cls = q.cls := congrArg AllocKey.cls hkey
        omega
  · exact ⟨entry, hget, hdead⟩

structure Keeps (s s' : BlobStore) : Prop where
  sound : s.Sound → s'.Sound
  settled : ∀ ptr, s.Sound → s.Settled ptr → s'.Settled ptr
  read : ∀ ptr data, s.Sound → s.Settled ptr → s'.read ptr = .ok data → s.read ptr = .ok data

theorem Keeps.refl (s : BlobStore) : Keeps s s :=
  ⟨id, fun _ _ h => h, fun _ _ _ _ h => h⟩

theorem Keeps.trans {s t u : BlobStore} (h : Keeps s t) (h' : Keeps t u) : Keeps s u where
  sound := fun hs => h'.sound (h.sound hs)
  settled := fun ptr hs hp => h'.settled ptr (h.sound hs) (h.settled ptr hs hp)
  read := fun ptr data hs hp hr =>
    h.read ptr data hs hp (h'.read ptr data (h.sound hs) (h.settled ptr hs hp) hr)

theorem keeps_of_cases {s s' : BlobStore} (hsound : s.Sound → s'.Sound)
    (hholds : ∀ ptr data, s.Sound → s.Holds ptr data → s'.Holds ptr data ∨ s'.Dead ptr)
    (hdead : ∀ ptr, s.Sound → s.Dead ptr → s'.Dead ptr) : Keeps s s' where
  sound := hsound
  settled := by
    rintro ptr hs (⟨data, h⟩ | h)
    · rcases hholds ptr data hs h with h' | h'
      · exact Or.inl ⟨data, h'⟩
      · exact Or.inr h'
    · exact Or.inr (hdead ptr hs h)
  read := by
    rintro ptr data hs (⟨held, h⟩ | h) hread
    · rcases hholds ptr held hs h with h' | h'
      · have hsame := (read_of_holds (hsound hs) h').symm.trans hread
        obtain rfl := Except.ok.inj hsame
        exact read_of_holds hs h
      · exact absurd hread (not_read_of_dead h')
    · exact absurd hread (not_read_of_dead (hdead ptr hs h))

theorem keeps_storeBytes {grow : Nat → Bool} {s s' : BlobStore} {data : Bytes} {ptr : BlobPtr}
    (h : s.storeBytes grow data = (.ok ptr, s')) : Keeps s s' := by
  obtain ⟨hp, hlen, harena⟩ := storeBytes_ok h
  refine keeps_of_cases (fun hs => sound_of_placed hs hp) ?_ (fun _ hs hd => dead_of_placed hs hd hp)
  intro q held hs hq
  exact Or.inl (holds_of_placed hs hq hp hlen (Or.inr harena))

theorem keeps_reclaimForPrune {s s' : BlobStore} {ptr : BlobPtr}
    (h : s.reclaimForPrune ptr = .ok s') : Keeps s s' := by
  have hr := reclaimForPrune_ok h
  refine keeps_of_cases (fun hs => sound_of_restated hs hr) ?_
    (fun _ _ hd => dead_of_restated hd hr rfl)
  intro q data _ hq
  by_cases hsame : ptr.key = q.key ∧ ptr.gen = q.gen
  · refine Or.inr ⟨⟨ptr.gen, .free⟩, ?_, Or.inr ⟨hsame.2, rfl⟩⟩
    rw [hr.table, OrdMap.get_insert, if_pos hsame.1.symm]
  · exact Or.inl (holds_of_restated hq hr (fun hkey hgen => hsame ⟨hkey, hgen⟩))

end BlobStore

end Kasane.Blob
