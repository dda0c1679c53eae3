import Kasane.Exec.Replay
import Kasane.Exec.Fees
import Kasane.Lib.LastWrite

namespace Kasane.Exec

open BigEndian Codec Word Chain LastWrite

-- the accounts of a diff in the order in which the iterator of the hash map gives them
structure Visited where
  entries : List (Address × Account)
  nodup : (entries.map Prod.fst).Nodup

def Visited.sorted (changes : StateDiff) : Visited := ⟨changes.entries, changes.keys_nodup⟩

namespace RevmStableDb

def commitVisited (c : Crypto) (db : RevmStableDb) (changes : Visited) : RevmStableDb :=
  changes.entries.foldl (commitAccount c) db

def commits (c : Crypto) (db : RevmStableDb) (diffs : List Visited) : RevmStableDb :=
  diffs.foldl (commitVisited c) db

variable {c : Crypto}

theorem commitVisited_sorted (db : RevmStableDb) (changes : StateDiff) :
    db.commitVisited c (.sorted changes) = db.commit c changes := rfl

def HasCode (c : Crypto) (hash : ByteArr 32) : Prop := hash ≠ keccakEmpty c ∧ hash ≠ zeroArr 32

instance (hash : ByteArr 32) : Decidable (HasCode c hash) :=
  inferInstanceAs (Decidable (hash ≠ keccakEmpty c ∧ hash ≠ zeroArr 32))

def Readable (c : Crypto) (db : RevmStableDb) (hash : ByteArr 32) : Prop :=
  c.keccak256 (db.codeByHash c hash) = hash

instance (db : RevmStableDb) (hash : ByteArr 32) : Decidable (Readable c db hash) :=
  inferInstanceAs (Decidable (c.keccak256 (db.codeByHash c hash) = hash))

def CodesReadable (c : Crypto) (db : RevmStableDb) : Prop :=
  ∀ address account, db.accounts.get address = some account → HasCode c account.codeHash →
    Readable c db account.codeHash

def deletes (c : Crypto) (account : Account) : Bool :=
  account.selfdestructed || (account.info.isEmpty c && account.touched)

def Stores (c : Crypto) (hash : ByteArr 32) (e : Address × Account) : Prop :=
  deletes c e.2 = false ∧ e.2.info.codeHash = hash ∧
    ∃ code, e.2.info.code = some code ∧ c.keccak256 code = hash

-- a deleted account takes the code under its old hash away, whoever else has it
def Clears (c : Crypto) (db : RevmStableDb) (hash : ByteArr 32) (e : Address × Account) : Prop :=
  (deletes c e.2 = true ∧ ∃ account, db.accounts.get e.1 = some account ∧ account.codeHash = hash) ∨
    (deletes c e.2 = false ∧ e.2.info.codeHash = hash ∧
      ∃ code, e.2.info.code = some code ∧ c.keccak256 code ≠ hash)

def Written (c : Crypto) (changes : Visited) (hash : ByteArr 32) : Prop :=
  ∃ e ∈ changes.entries, deletes c e.2 = false ∧ e.2.info.codeHash = hash

def Untouched (db : RevmStableDb) (changes : Visited) (hash : ByteArr 32) : Prop :=
  ∃ address account, address ∉ changes.entries.map Prod.fst ∧
    db.accounts.get address = some account ∧ account.codeHash = hash

structure KeepsCodes (c : Crypto) (db : RevmStableDb) (changes : Visited) : Prop where
  restored : ∀ hash, HasCode c hash → Written c changes hash ∨ Untouched db changes hash →
    Restored (Clears c db hash) (Stores c hash) changes.entries
  carried : ∀ hash, HasCode c hash → Written c changes hash →
    Readable c db hash ∨ ∃ e ∈ changes.entries, Stores c hash e

def codesAfter (c : Crypto) (accounts : OrdMap Address AccountVal)
    (codes : OrdMap (ByteArr 32) Bytes) (e : Address × Account) : OrdMap (ByteArr 32) Bytes :=
  if deletes c e.2 then
    match accounts.get e.1 with
    | some account => codes.remove account.codeHash
    | none => codes
  else commitCode codes e.2.info

theorem codes_commitAccount (db : RevmStableDb) (e : Address × Account) :
    (db.commitAccount c e).codes = codesAfter c db.accounts db.codes e := by
  rw [commitAccount, codesAfter, deletes]
  split_ifs
  · rfl
  · rfl

-- every account is visited once, so what a deletion looks up is the account before the commit
theorem codes_foldl {es : List (Address × Account)} (hnodup : (es.map Prod.fst).Nodup)
    {accounts : OrdMap Address AccountVal} {db : RevmStableDb}
    (hsame : ∀ address ∈ es.map Prod.fst, db.accounts.get address = accounts.get address) :
    (es.foldl (commitAccount c) db).codes = es.foldl (codesAfter c accounts) db.codes := by
  induction es generalizing db with
  | nil => rfl
  | cons e es ih =>
      obtain ⟨hnot, hrest⟩ := List.nodup_cons.mp hnodup
      have hcodes : (db.commitAccount c e).codes = codesAfter c accounts db.codes e := by
        rw [codes_commitAccount, codesAfter, codesAfter, hsame e.1 (List.mem_cons_self ..)]
      rw [List.foldl_cons, List.foldl_cons, ih hrest, hcodes]
      intro address hmem
      rw [get_commitAccount_of_ne db e address (fun heq => hnot (heq ▸ hmem))]
      exact hsame address (List.mem_cons_of_mem _ hmem)

def Holds (c : Crypto) (hash : ByteArr 32) (codes : OrdMap (ByteArr 32) Bytes) : Prop :=
  c.keccak256 ((codes.get hash).getD []) = hash

theorem readable_iff {hash : ByteArr 32} (h : HasCode c hash) (db : RevmStableDb) :
    Readable c db hash ↔ Holds c hash db.codes := by
  rw [Readable, Holds, codeByHash, if_neg h.1]

theorem not_holds_of_none {hash : ByteArr 32} (h : HasCode c hash)
    {codes : OrdMap (ByteArr 32) Bytes} (hnone : codes.get hash = none) : ¬ Holds c hash codes := by
  rw [Holds, hnone]
  exact fun hempty => h.1 hempty.symm

theorem holds_congr {hash : ByteArr 32} {codes codes' : OrdMap (ByteArr 32) Bytes}
    (h : codes'.get hash = codes.get hash) : Holds c hash codes' ↔ Holds c hash codes := by
  rw [Holds, Holds, h]

theorem get_commitCode_self {codes : OrdMap (ByteArr 32) Bytes} {info : AccountInfo} {code : Bytes}
    (h : info.code = some code) : ((commitCode codes info).get info.codeHash).getD [] = code := by
  cases code with
  | nil => simp [commitCode, h]
  | cons b code => simp [commitCode, h]

theorem get_commitCode_of_none {codes : OrdMap (ByteArr 32) Bytes} {info : AccountInfo}
    (h : info.code = none) : commitCode codes info = codes := by
  rw [commitCode, h]

theorem get_commitCode_of_ne {codes : OrdMap (ByteArr 32) Bytes} {info : AccountInfo}
    {hash : ByteArr 32} (h : hash ≠ info.codeHash) :
    (commitCode codes info).get hash = codes.get hash := by
  rw [commitCode]
  split
  · rfl
  · exact (OrdMap.get_remove ..).trans (if_neg h)
  · exact (OrdMap.get_insert ..).trans (if_neg h)

theorem not_holds_codesAfter {db : RevmStableDb} {hash : ByteArr 32} (h : HasCode c hash)
    (codes : OrdMap (ByteArr 32) Bytes) (e : Address × Account) (hclears : Clears c db hash e) :
    ¬ Holds c hash (codesAfter c db.accounts codes e) := by
  obtain ⟨hdel, account, hget, rfl⟩ | ⟨hkept, rfl, code, hcode, hne⟩ := hclears
  · rw [codesAfter, if_pos hdel, hget]
    exact not_holds_of_none h ((OrdMap.get_remove ..).trans (if_pos rfl))
  · rw [codesAfter, hkept, if_neg Bool.false_ne_true, Holds, get_commitCode_self hcode]
    exact hne

theorem holds_codesAfter {db : RevmStableDb} {hash : ByteArr 32}
    (codes : OrdMap (ByteArr 32) Bytes) (e : Address × Account) (hstores : Stores c hash e) :
    Holds c hash (codesAfter c db.accounts codes e) := by
  obtain ⟨hkept, rfl, code, hcode, heq⟩ := hstores
  rw [codesAfter, hkept, if_neg Bool.false_ne_true, Holds, get_commitCode_self hcode]
  exact heq

theorem get_codesAfter {db : RevmStableDb} {hash : ByteArr 32} (codes : OrdMap (ByteArr 32) Bytes)
    (e : Address × Account) (hclears : ¬ Clears c db hash e) (hstores : ¬ Stores c hash e) :
    (codesAfter c db.accounts codes e).get hash = codes.get hash := by
  rw [codesAfter]
  cases hdel : deletes c e.2 with
  | true =>
      rw [if_pos rfl]
      cases hget : db.accounts.get e.1 with
      | none => rfl
      | some account =>
          exact (OrdMap.get_remove ..).trans
            (if_neg (fun heq => hclears (.inl ⟨hdel, account, hget, heq.symm⟩)))
  | false =>
      rw [if_neg Bool.false_ne_true]
      cases hcode : e.2.info.code with
      | none => rw [get_commitCode_of_none hcode]
      | some code =>
          refine get_commitCode_of_ne (fun heq => ?_)
          by_cases hhash : c.keccak256 code = hash
          · exact hstores ⟨hdel, heq.symm, code, hcode, hhash⟩
          · exact hclears (.inr ⟨hdel, heq.symm, code, hcode, hhash⟩)

theorem readable_commitVisited {hash : ByteArr 32} (h : HasCode c hash) (db : RevmStableDb)
    (changes : Visited) :
    Readable c (db.commitVisited c changes) hash ↔
      Restored (Clears c db hash) (Stores c hash) changes.entries ∧
        (Readable c db hash ∨ ∃ e ∈ changes.entries, Stores c hash e) := by
  rw [readable_iff h, readable_iff h, commitVisited, codes_foldl changes.nodup (fun _ _ => rfl)]
  exact holds_foldl (not_holds_codesAfter h) holds_codesAfter
    (fun codes e hclears hstores => holds_congr (get_codesAfter codes e hclears hstores))
    changes.entries db.codes

theorem get_commitVisited (db : RevmStableDb) (changes : Visited) (address : Address) :
    (db.commitVisited c changes).accounts.get address =
      (OrdMap.lookupIn address changes.entries).elim (db.accounts.get address)
        (accountAfter c (db.accounts.get address)) :=
  OrdMap.get_foldl_keyed (fun db : RevmStableDb => db.accounts.get) (commitAccount c) (accountAfter c)
    get_commitAccount_self get_commitAccount_of_ne changes.nodup db address

theorem mem_of_lookupIn {address : Address} {account : Account} {es : List (Address × Account)}
    (h : OrdMap.lookupIn address es = some account) : (address, account) ∈ es := by
  induction es with
  | nil => cases h
  | cons e es ih =>
      rw [OrdMap.lookupIn] at h
      split_ifs at h with heq
      · cases h
        rw [heq]
        exact List.mem_cons_self ..
      · exact List.mem_cons_of_mem _ (ih h)

theorem lookupIn_of_mem {es : List (Address × Account)} (hnodup : (es.map Prod.fst).Nodup)
    {e : Address × Account} (h : e ∈ es) : OrdMap.lookupIn e.1 es = some e.2 := by
  induction es with
  | nil => cases h
  | cons first es ih =>
      obtain ⟨hnot, hrest⟩ := List.nodup_cons.mp hnodup
      rw [OrdMap.lookupIn]
      cases h with
      | head => rw [if_pos rfl]
      | tail _ h =>
          have hkey : e.1 ∈ es.map Prod.fst := List.mem_map_of_mem h
          have hne : e.1 ≠ first.1 := fun heq => hnot (heq ▸ hkey)
          rw [if_neg hne, ih hrest h]

theorem lookupIn_of_notMem {address : Address} {es : List (Address × Account)}
    (h : address ∉ es.map Prod.fst) : OrdMap.lookupIn address es = none := by
  cases hl : OrdMap.lookupIn address es with
  | none => rfl
  | some account =>
      have hkey : address ∈ es.map Prod.fst := List.mem_map_of_mem (mem_of_lookupIn hl)
      exact absurd hkey h

theorem live_iff (db : RevmStableDb) (changes : Visited) (hash : ByteArr 32) :
    Written c changes hash ∨ Untouched db changes hash ↔ ∃ address account,
      (db.commitVisited c changes).accounts.get address = some account ∧ account.codeHash = hash := by
  constructor
  · rintro (⟨e, hmem, hkept, hhash⟩ | ⟨address, account, hnot, hget, hhash⟩)
    · refine ⟨e.1, ⟨e.2.info.nonce, e.2.info.balance, e.2.info.codeHash⟩, ?_, hhash⟩
      rw [get_commitVisited, lookupIn_of_mem changes.nodup hmem, Option.elim_some, accountAfter]
      exact if_neg (by rw [← deletes, hkept]; exact Bool.false_ne_true)
    · refine ⟨address, account, ?_, hhash⟩
      rw [get_commitVisited, lookupIn_of_notMem hnot]
      exact hget
  · rintro ⟨address, account, hget, hhash⟩
    rw [get_commitVisited] at hget
    cases hl : OrdMap.lookupIn address changes.entries with
    | none =>
        refine .inr ⟨address, account, fun hmem => ?_, by simpa [hl] using hget, hhash⟩
        obtain ⟨e, he, rfl⟩ := List.mem_map.mp hmem
        rw [lookupIn_of_mem changes.nodup he] at hl
        cases hl
    | some changed =>
        rw [hl, Option.elim_some, accountAfter] at hget
        split_ifs at hget with hdel
        cases hget
        exact .inl ⟨_, mem_of_lookupIn hl, Bool.eq_false_of_not_eq_true hdel, hhash⟩

theorem codesReadable_commitVisited {db : RevmStableDb} (h : CodesReadable c db)
    (changes : Visited) :
    CodesReadable c (db.commitVisited c changes) ↔ KeepsCodes c db changes := by
  constructor
  · intro hafter
    have hlive {hash : ByteArr 32} (hcode : HasCode c hash)
        (hwho : Written c changes hash ∨ Untouched db changes hash) :
        Readable c (db.commitVisited c changes) hash := by
      obtain ⟨address, account, hget, rfl⟩ := (live_iff db changes hash).mp hwho
      exact hafter address account hget hcode
    constructor
    · intro hash hcode hwho
      exact ((readable_commitVisited hcode db changes).mp (hlive hcode hwho)).1
    · intro hash hcode hwritten
      exact ((readable_commitVisited hcode db changes).mp (hlive hcode (.inl hwritten))).2
  · intro hkeeps address account hget hcode
    have hwho := (live_iff db changes _).mpr ⟨address, account, hget, rfl⟩
    refine (readable_commitVisited hcode db changes).mpr ⟨hkeeps.restored _ hcode hwho, ?_⟩
    cases hwho with
    | inl hwritten => exact hkeeps.carried _ hcode hwritten
    | inr huntouched =>
        obtain ⟨other, val, -, hval, heq⟩ := huntouched
        rw [← heq] at hcode ⊢
        exact .inl (h other val hval hcode)

theorem commits_append (db : RevmStableDb) (before : List Visited) (changes : Visited) :
    db.commits c (before ++ [changes]) = (db.commits c before).commitVisited c changes := by
  rw [commits, List.foldl_append]
  rfl

theorem codes_readable_iff {db : RevmStableDb} (h : CodesReadable c db) (diffs : List Visited) :
    (∀ before, before <+: diffs → CodesReadable c (db.commits c before)) ↔
      ∀ before changes, before ++ [changes] <+: diffs →
        KeepsCodes c (db.commits c before) changes := by
  constructor
  · intro hall before changes hprefix
    have hbefore := hall _ ((List.prefix_append ..).trans hprefix)
    have hafter := hall _ hprefix
    rw [commits_append] at hafter
    exact (codesReadable_commitVisited hbefore changes).mp hafter
  · intro hkeeps before hprefix
    induction before using List.reverseRecOn with
    | nil => exact h
    | append_singleton before changes ih =>
        have hbefore := ih ((List.prefix_append ..).trans hprefix)
        rw [commits_append]
        exact (codesReadable_commitVisited hbefore changes).mpr (hkeeps before changes hprefix)

-- an interpreter that destroys only what the same transaction created gives such diffs
theorem keepsCodes_of_fresh {db : RevmStableDb} {changes : Visited}
    (hdeleted : ∀ e ∈ changes.entries, deletes c e.2 = true → ∀ account,
      db.accounts.get e.1 = some account → ¬ HasCode c account.codeHash)
    (hhashed : ∀ e ∈ changes.entries, ∀ code, e.2.info.code = some code →
      c.keccak256 code = e.2.info.codeHash)
    (hcarried : ∀ e ∈ changes.entries, e.2.info.code = none → Readable c db e.2.info.codeHash) :
    KeepsCodes c db changes where
  restored := by
    intro hash hcode _
    refine restored_of_never _ _ (fun e he hclears => ?_)
    obtain ⟨hdel, account, hget, rfl⟩ | ⟨-, rfl, code, hsome, hne⟩ := hclears
    · exact hdeleted e he hdel account hget hcode
    · exact hne (hhashed e he code hsome)
  carried := by
    rintro hash - ⟨e, he, hkept, rfl⟩
    cases hsome : e.2.info.code with
    | none => exact .inl (hcarried e he hsome)
    | some code => exact .inr ⟨e, he, hkept, rfl, code, hsome, hhashed e he code hsome⟩

end RevmStableDb

def codedAccount (code : Bytes) : Account where
  info := ⟨0, 1, sampleCrypto.keccak256 code, some code⟩
  storage := .empty
  touched := true
  created := true
  selfdestructed := false

-- two contracts of one code are created, then the first destroys itself
def twinsCreated : StateDiff :=
  (OrdMap.empty.insert (sampleAddress 1) (codedAccount [9])).insert (sampleAddress 2)
    (codedAccount [9])

def twinDestroyed : StateDiff :=
  OrdMap.empty.insert (sampleAddress 1) { codedAccount [9] with selfdestructed := true }

def emptyDb : RevmStableDb := ⟨.empty, .empty, .empty⟩

theorem codesReadable_emptyDb : emptyDb.CodesReadable sampleCrypto := by
  intro address account hget
  cases hget

theorem twins_readable :
    (∀ before, before <+: [.sorted twinsCreated] →
        (emptyDb.commits sampleCrypto before).CodesReadable sampleCrypto) ↔
      ∀ before changes, before ++ [changes] <+: [.sorted twinsCreated] →
        (emptyDb.commits sampleCrypto before).KeepsCodes sampleCrypto changes :=
  RevmStableDb.codes_readable_iff codesReadable_emptyDb [.sorted twinsCreated]

theorem twin_code_lost :
    ((emptyDb.commit sampleCrypto twinsCreated).codeByHash sampleCrypto
        (sampleCrypto.keccak256 [9]) = [9]) ∧
      ((emptyDb.commit sampleCrypto twinsCreated).commit sampleCrypto twinDestroyed).basic
          (sampleAddress 2) = some ⟨0, 1, sampleCrypto.keccak256 [9], none⟩ ∧
      ((emptyDb.commit sampleCrypto twinsCreated).commit sampleCrypto twinDestroyed).codeByHash
          sampleCrypto (sampleCrypto.keccak256 [9]) = [] ∧
      ¬ ((emptyDb.commit sampleCrypto twinsCreated).commit sampleCrypto
          twinDestroyed).CodesReadable sampleCrypto := by
  have haccount : ((emptyDb.commit sampleCrypto twinsCreated).commit sampleCrypto
      twinDestroyed).accounts.get (sampleAddress 2) =
        some ⟨1, 0, sampleCrypto.keccak256 [9]⟩ := by decide +kernel
  refine ⟨by decide +kernel, by decide +kernel, by decide +kernel, fun h => ?_⟩
  have hread := h (sampleAddress 2) _ haccount (by decide +kernel)
  exact absurd hread (by decide +kernel)

end Kasane.Exec
