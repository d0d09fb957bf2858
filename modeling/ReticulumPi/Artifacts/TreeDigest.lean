import ReticulumPi.Artifacts.Tree

/-!
# The digest of an artifact tree binds what the walk sees

Two trees with one digest have the same entries as far as the walk sees them: the
records are framed, so the stream gives them back, and each record gives back the
path and what is there. So the trees are the same, apart from cache names, exactly
if what is hidden in either of them (in a directory that cannot be listed, or that
directory itself) is in the other one too.

* `Adds`: what a part of the walk feeds to the digest;
* `adds_walk`: the walk feeds what it sees;
* `same_iff_of_digest_eq`: the result.
-/

namespace ReticulumPi.Artifacts

open PyCodec List

/-! ## What is in a tree -/

/-- What a link resolves to: the path of a directory in the tree, or the bytes of a
    file. -/
inductive Resolved where
  | directory (inside : Option (List Name))
  | file (content : List Byte)
  | nothing

/-- What is at a path. -/
inductive Info where
  | directory (mode : ℕ)
  | file (mode : ℕ) (content : List Byte)
  | link (text : LinkText) (resolved : Resolved)
  | special

def Target.resolved : Target → Resolved
  | .directory inside _ => .directory inside
  | .file _ content _ _ => .file content
  | .other => .nothing

def Node.info : Node → Info
  | .directory stat _ _ => .directory stat.mode
  | .file stat content _ => .file stat.mode content
  | .link text target => .link text target.resolved
  | .special => .special

/-- The path leads from the first node to the second one, and through no cache. -/
inductive Leads : Node → List Name → Node → Prop where
  | here (n : Node) : Leads n [] n
  | child {stat : Stat} {listable : Bool} {entries : List (Name × Node)} {name : Name}
      {child n : Node} {path : List Name} (hmem : (name, child) ∈ entries)
      (hname : ¬ name.IsCache) (h : Leads child path n) :
      Leads (.directory stat listable entries) (name :: path) n

/-- The node is no directory that cannot be listed. -/
def Node.IsListable : Node → Prop
  | .directory _ listable _ => listable = true
  | _ => True

/-- The same, when all directories on the way can be listed, the last one too. -/
inductive Sees : Node → List Name → Node → Prop where
  | here {n : Node} (h : n.IsListable) : Sees n [] n
  | child {stat : Stat} {entries : List (Name × Node)} {name : Name} {child n : Node}
      {path : List Name} (hmem : (name, child) ∈ entries) (hname : ¬ name.IsCache)
      (h : Sees child path n) : Sees (.directory stat true entries) (name :: path) n

def HasAt (t : Node) (p : List Name) (i : Info) : Prop := ∃ n, Leads t p n ∧ n.info = i

def SeenAt (t : Node) (p : List Name) (i : Info) : Prop := ∃ n, Sees t p n ∧ n.info = i

/-- What is in a directory that cannot be listed, or is such a directory. -/
def HiddenAt (t : Node) (p : List Name) (i : Info) : Prop :=
  ∃ n, Leads t p n ∧ ¬ Sees t p n ∧ n.info = i

/-- The trees are equal outside the cache names. -/
def Same (t t' : Node) : Prop := ∀ p i, HasAt t p i ↔ HasAt t' p i

variable {sha256 : List Byte → List Byte} {requireTrusted : Bool} {t t' n : Node}
  {p p' path : List Name} {i i' : Info} {r r' : Record} {s s₁ s' : Progress}

theorem Sees.leads (h : Sees t p n) : Leads t p n := by
  induction h with
  | here => exact .here _
  | child hmem hname _ ih => exact .child hmem hname ih

theorem hasAt_iff : HasAt t p i ↔ SeenAt t p i ∨ HiddenAt t p i := by
  constructor
  · rintro ⟨n, hn, hi⟩
    by_cases hsees : Sees t p n
    · exact .inl ⟨n, hsees, hi⟩
    · exact .inr ⟨n, hn, hsees, hi⟩
  · rintro (⟨n, hn, hi⟩ | ⟨n, hn, -, hi⟩)
    · exact ⟨n, hn.leads, hi⟩
    · exact ⟨n, hn, hi⟩

/-! ## Records -/

/-- The record of what is at a path; what gets none is not accepted. -/
def recordOf (sha256 : List Byte → List Byte) (path : List Name) : Info → Option Record
  | .directory mode => some { kind := .directory, path, mode, payload := [] }
  | .file mode content => some { kind := .file, path, mode, payload := sha256 content }
  | .link text (.directory (some target)) =>
    some
      { kind := .directoryLink, path, mode := 0,
        payload := text.bytes ++ byte 0 :: asPosix target }
  | .link text (.file content) =>
    some { kind := .fileLink, path, mode := 0, payload := text.bytes ++ byte 0 :: sha256 content }
  | _ => none

/-- The bytes of a file, which are hashed. -/
def Info.content : Info → Option (List Byte)
  | .file _ content => some content
  | .link _ (.file content) => some content
  | _ => none

/-- What comes before the first of a byte can be told from what follows it. -/
theorem append_cons_inj {a : Byte} {l l' x x' : List Byte} (hl : a ∉ l) (hl' : a ∉ l')
    (h : l ++ a :: x = l' ++ a :: x') : l = l' ∧ x = x' := by
  induction l generalizing l' with
  | nil =>
    rcases l' with _ | ⟨b, l'⟩
    · exact ⟨rfl, (List.cons.inj h).2⟩
    · exact absurd ((List.cons.inj h).1 ▸ mem_cons_self) hl'
  | cons b l ih =>
    rcases l' with _ | ⟨b', l'⟩
    · exact absurd ((List.cons.inj h).1 ▸ mem_cons_self) hl
    · obtain ⟨rfl, hrest⟩ := List.cons.inj h
      obtain ⟨rfl, rfl⟩ := ih (fun hmem => hl (mem_cons_of_mem _ hmem))
        (fun hmem => hl' (mem_cons_of_mem _ hmem)) hrest
      exact ⟨rfl, rfl⟩

theorem Name.bytes_injective : Function.Injective Name.bytes := fun a b h => by
  rcases a with ⟨bytes, _, _, _⟩
  rcases b with ⟨bytes', _, _, _⟩
  obtain rfl : bytes = bytes' := h
  rfl

theorem LinkText.bytes_injective : Function.Injective LinkText.bytes := fun a b h => by
  rcases a with ⟨bytes, _⟩
  rcases b with ⟨bytes', _⟩
  obtain rfl : bytes = bytes' := h
  rfl

/-- What a path with a name begins with. -/
theorem asPosix_cons (name : Name) (path : List Name) :
    asPosix (name :: path) =
      name.bytes ++ if path = [] then [] else byte 0x2f :: asPosix path := by
  rcases path with _ | ⟨name', path⟩
  · rw [if_pos rfl, append_nil]
    rfl
  · rw [if_neg (cons_ne_nil _ _)]
    rfl

theorem asPosix_nil_ne (name : Name) (path : List Name) : asPosix [] ≠ asPosix (name :: path) := by
  rw [asPosix_cons]
  intro h
  split_ifs at h
  · rw [append_nil] at h
    exact name.ne_dot h.symm
  · -- A path of several names has a slash.
    have hmem : byte 0x2f ∈ asPosix [] := by
      rw [h]
      exact mem_append_right _ mem_cons_self
    exact absurd hmem (by decide)

theorem asPosix_injective : Function.Injective asPosix := by
  intro p q h
  induction p generalizing q with
  | nil =>
    rcases q with _ | ⟨name, q⟩
    · rfl
    · exact absurd h (asPosix_nil_ne name q)
  | cons name p ih =>
    rcases q with _ | ⟨name', q⟩
    · exact absurd h.symm (asPosix_nil_ne name p)
    · rw [asPosix_cons, asPosix_cons] at h
      split_ifs at h with hp hq hq
      · rw [append_nil, append_nil] at h
        rw [hp, hq, Name.bytes_injective h]
      · rw [append_nil] at h
        exact absurd (h ▸ mem_append_right _ mem_cons_self) name.noSlash
      · rw [append_nil] at h
        exact absurd (h ▸ mem_append_right _ mem_cons_self) name'.noSlash
      · obtain ⟨hname, hrest⟩ := append_cons_inj name.noSlash name'.noSlash h
        rw [Name.bytes_injective hname, ih hrest]

/-- The digits can be read back. -/
theorem map_octal (mode : ℕ) :
    (octal mode).map (fun b => Char.ofNat b.val) = Nat.toDigits 8 mode := by
  rw [octal, List.map_map]
  refine (map_congr_left fun c hc => ?_).trans (List.map_id _)
  have hdigit := Nat.isDigit_of_mem_toDigits (by decide) (by decide) hc
  rw [Char.isDigit, Bool.and_eq_true, decide_eq_true_iff, decide_eq_true_iff] at hdigit
  have hlt : c.toNat < 0x100 := lt_of_le_of_lt (UInt32.le_iff_toNat_le.1 hdigit.2) (by decide)
  rw [Function.comp_apply, byte_val hlt, Char.ofNat_toNat, id]

theorem octal_injective : Function.Injective octal := by
  intro m n h
  have hdigits : Nat.toDigits 8 m = Nat.toDigits 8 n := by rw [← map_octal, h, map_octal]
  rw [← Nat.ofDigitChars_toDigits (b := 8) (n := m) (by decide) (by decide), hdigits,
    Nat.ofDigitChars_toDigits (by decide) (by decide)]

theorem Kind.text_injective : Function.Injective fun kind : Kind => ascii kind.text := by
  intro a b h
  cases a <;> cases b <;> first | rfl | exact absurd h (by decide)

theorem Record.values_injective : Function.Injective Record.values := by
  intro a b h
  rw [Record.values, Record.values] at h
  obtain ⟨hkind, h⟩ := List.cons.inj h
  obtain ⟨hpath, h⟩ := List.cons.inj h
  obtain ⟨hmode, h⟩ := List.cons.inj h
  obtain ⟨hpayload, -⟩ := List.cons.inj h
  rcases a with ⟨kind, path, mode, payload⟩
  rcases b with ⟨kind', path', mode', payload'⟩
  obtain rfl : kind = kind' := Kind.text_injective hkind
  obtain rfl : path = path' := asPosix_injective hpath
  obtain rfl : mode = mode' := octal_injective hmode
  obtain rfl : payload = payload' := hpayload
  rfl

/-- A record gives back the path and what is there, if no two files collide. -/
theorem recordOf_inj (hr : recordOf sha256 p i = some r) (hr' : recordOf sha256 p' i' = some r)
    (hsha : ∀ a ∈ i.content, ∀ b ∈ i'.content, sha256 a = sha256 b → a = b) :
    p = p' ∧ i = i' := by
  rw [recordOf.eq_def] at hr hr'
  split at hr <;> cases hr <;> split at hr'
  all_goals simp only [Option.some.injEq, Record.mk.injEq, reduceCtorEq, false_and] at hr'
  · obtain ⟨-, rfl, rfl, -⟩ := hr'
    exact ⟨rfl, rfl⟩
  · obtain ⟨-, rfl, rfl, hcontent⟩ := hr'
    exact ⟨rfl, congrArg _ (hsha _ rfl _ rfl hcontent.symm)⟩
  · obtain ⟨-, rfl, -, hpayload⟩ := hr'
    obtain ⟨htext, htarget⟩ :=
      append_cons_inj (LinkText.noNul _) (LinkText.noNul _) hpayload
    rw [LinkText.bytes_injective htext, asPosix_injective htarget]
    exact ⟨rfl, rfl⟩
  · obtain ⟨-, rfl, -, hpayload⟩ := hr'
    obtain ⟨htext, hcontent⟩ :=
      append_cons_inj (LinkText.noNul _) (LinkText.noNul _) hpayload
    rw [LinkText.bytes_injective htext, hsha _ rfl _ rfl hcontent.symm]
    exact ⟨rfl, rfl⟩

/-! ## What the walk feeds to the digest -/

/-- The records are of the described entries, of all of them and of no others. -/
structure Describe (sha256 : List Byte → List Byte) (rs : List Record)
    (Q : List Name → Info → Prop) : Prop where
  fits : ∀ r ∈ rs, r.Fits
  all : ∀ p i, Q p i → ∃ r ∈ rs, recordOf sha256 p i = some r
  only : ∀ r ∈ rs, ∃ p i, Q p i ∧ recordOf sha256 p i = some r

/-- The stream goes on with the records of the described entries. -/
def Adds (sha256 : List Byte → List Byte) (s s' : Progress) (Q : List Name → Info → Prop) : Prop :=
  ∃ rs, s'.stream = s.stream ++ rs.flatMap (fun r => r.values.flatMap (Framing.frame 8)) ∧
    Describe sha256 rs Q

variable {Q Q' : List Name → Info → Prop}

theorem Adds.refl (hQ : ∀ p i, ¬ Q p i) : Adds sha256 s s Q :=
  ⟨[], (append_nil _).symm, fun r hr => (by cases hr), fun p i h => absurd h (hQ p i),
    fun r hr => by cases hr⟩

theorem Adds.trans {Q₁ : List Name → Info → Prop} (h : Adds sha256 s s₁ Q)
    (h' : Adds sha256 s₁ s' Q₁) (hQ : ∀ p i, Q' p i ↔ Q p i ∨ Q₁ p i) : Adds sha256 s s' Q' := by
  obtain ⟨rs, hrs, hd⟩ := h
  obtain ⟨rs', hrs', hd'⟩ := h'
  refine ⟨rs ++ rs', ?_, fun r hr => ?_, fun p i hpi => ?_, fun r hr => ?_⟩
  · rw [hrs', hrs, append_assoc, flatMap_append]
  · exact (mem_append.1 hr).elim (hd.fits r) (hd'.fits r)
  · rcases (hQ p i).1 hpi with hpi | hpi
    · obtain ⟨r, hr, hrec⟩ := hd.all p i hpi
      exact ⟨r, mem_append_left _ hr, hrec⟩
    · obtain ⟨r, hr, hrec⟩ := hd'.all p i hpi
      exact ⟨r, mem_append_right _ hr, hrec⟩
  · rcases mem_append.1 hr with hr | hr
    · obtain ⟨p, i, hpi, hrec⟩ := hd.only r hr
      exact ⟨p, i, (hQ p i).2 (.inl hpi), hrec⟩
    · obtain ⟨p, i, hpi, hrec⟩ := hd'.only r hr
      exact ⟨p, i, (hQ p i).2 (.inr hpi), hrec⟩

theorem adds_feed (h : s.feed r = some s') (hr : recordOf sha256 p i = some r) :
    Adds sha256 s s' fun p' i' => p' = p ∧ i' = i := by
  obtain ⟨hfits, heq⟩ := Option.ite_none_right_eq_some.1 h
  cases heq
  refine ⟨[r], ?_, fun r' hr' => ?_, fun p' i' h => ⟨r, mem_cons_self, ?_⟩, fun r' hr' => ?_⟩
  · rw [flatMap_cons, flatMap_nil, append_nil]
  · rwa [mem_singleton.1 hr']
  · rw [h.1, h.2, hr]
  · exact ⟨p, i, ⟨rfl, rfl⟩, by rw [mem_singleton.1 hr', hr]⟩

theorem stream_count {size : ℕ} (h : s.count size = some s') : s'.stream = s.stream := by
  obtain ⟨-, heq⟩ := Option.ite_none_left_eq_some.1 h
  cases heq
  rfl

/-- A loop feeds what its steps feed. -/
theorem adds_foldlM {α : Type*} {f : Progress → α → Option Progress}
    {Q : α → List Name → Info → Prop} {l : List α}
    (hf : ∀ e ∈ l, ∀ s s', f s e = some s' → Adds sha256 s s' (Q e))
    (h : l.foldlM f s = some s') : Adds sha256 s s' fun p i => ∃ e ∈ l, Q e p i := by
  induction l generalizing s with
  | nil =>
    cases h
    exact Adds.refl fun p i ⟨e, he, _⟩ => by cases he
  | cons e l ih =>
    rw [foldlM_cons] at h
    obtain ⟨s₁, hs₁, h⟩ := Option.bind_eq_some_iff.1 h
    refine (hf e mem_cons_self s s₁ hs₁).trans
      (ih (fun e he => hf e (mem_cons_of_mem _ he)) h) fun p i => ?_
    simp only [mem_cons, exists_eq_or_imp]

/-- Only the links among the directories get a record. -/
theorem adds_feedDirectoryName {e : Name × Node} (he : e.2.isDirectory = true)
    (h : feedDirectoryName requireTrusted path s e = some s') :
    Adds sha256 s s' fun p i => (∃ text target, e.2 = .link text target) ∧
      p = path ++ [e.1] ∧ i = e.2.info := by
  rw [feedDirectoryName.eq_def] at h
  split at h
  next name text inside trusted =>
    split at h
    next => cases h
    next target =>
      obtain ⟨-, h⟩ := Option.ite_none_left_eq_some.1 h
      refine (adds_feed (p := path ++ [name]) (i := .link text (.directory (some target))) h
        rfl).trans (Adds.refl (Q := fun _ _ => False) fun _ _ => id) fun p i => ?_
      rw [or_false]
      exact and_iff_right ⟨text, _, rfl⟩
  next hne =>
    cases h
    refine Adds.refl fun p i ⟨⟨text, target, hlink⟩, _⟩ => ?_
    obtain ⟨name, node⟩ := e
    obtain rfl : node = _ := hlink
    rcases target with ⟨inside, trusted⟩ | _ | _
    · exact hne name text inside trusted rfl
    · cases he
    · cases he

theorem adds_feedFileName {e : Name × Node}
    (h : feedFileName sha256 requireTrusted path s e = some s') :
    Adds sha256 s s' fun p i => p = path ++ [e.1] ∧ i = e.2.info := by
  have hcount : ∀ {r : Record} {size : ℕ} {i : Info},
      (s.feed r >>= fun s => s.count size) = some s' → recordOf sha256 (path ++ [e.1]) i = some r →
      Adds sha256 s s' fun p i' => p = path ++ [e.1] ∧ i' = i := fun hs hr => by
    obtain ⟨s₁, hs₁, hs⟩ := Option.bind_eq_some_iff.1 hs
    obtain ⟨rs, hrs, hd⟩ := adds_feed hs₁ hr
    exact ⟨rs, (stream_count hs).trans hrs, hd⟩
  rw [feedFileName.eq_def] at h
  split at h
  next name text stat content readable trusted =>
    obtain ⟨-, h⟩ := Option.ite_none_left_eq_some.1 h
    exact hcount (i := .link text (.file content)) h rfl
  next name stat content readable =>
    obtain ⟨-, h⟩ := Option.ite_none_left_eq_some.1 h
    exact hcount (i := .file stat.mode content) h rfl
  next => cases h

/-! ## What the walk sees -/

/-- Induction over a tree. -/
theorem Node.induction {motive : Node → Prop}
    (directory : ∀ stat listable entries, (∀ e ∈ entries, motive e.2) →
      motive (.directory stat listable entries))
    (file : ∀ stat content readable, motive (.file stat content readable))
    (link : ∀ text target, motive (.link text target)) (special : motive .special) :
    ∀ n, motive n
  | .directory stat listable entries =>
    directory stat listable entries fun e he =>
      have hlt : sizeOf e.2 < sizeOf (Node.directory stat listable entries) := by
        have hsize := sizeOf_lt_of_mem he
        have hpair : sizeOf e.2 < sizeOf e := by
          obtain ⟨name, node⟩ := e
          simp only [Prod.mk.sizeOf_spec]
          omega
        simp only [Node.directory.sizeOf_spec]
        omega
      Node.induction directory file link special e.2
  | .file stat content readable => file stat content readable
  | .link text target => link text target
  | .special => special
termination_by n => sizeOf n
decreasing_by exact hlt

def Node.IsPlainDirectory : Node → Prop
  | .directory _ _ _ => True
  | _ => False

/-- From anything but a directory only the empty path leads anywhere. -/
theorem seenAt_of_not_directory (hn : ¬ n.IsPlainDirectory) :
    SeenAt n p i ↔ p = [] ∧ i = n.info := by
  constructor
  · rintro ⟨m, hm, rfl⟩
    cases hm with
    | here => exact ⟨rfl, rfl⟩
    | child => exact absurd trivial hn
  · rintro ⟨rfl, rfl⟩
    refine ⟨n, .here ?_, rfl⟩
    rcases n with _ | _ | _ | _
    · exact absurd trivial hn
    all_goals trivial

variable {entries : List (Name × Node)}

/-- In a directory there are itself, and what is seen from its entries. -/
theorem seenAt_directory {stat : Stat} :
    SeenAt (.directory stat true entries) p i ↔ (p = [] ∧ i = .directory stat.mode) ∨
      ∃ e ∈ entries, ¬ e.1.IsCache ∧ ∃ q, p = e.1 :: q ∧ SeenAt e.2 q i := by
  constructor
  · rintro ⟨m, hm, rfl⟩
    cases hm with
    | here => exact .inl ⟨rfl, rfl⟩
    | child hmem hname h => exact .inr ⟨_, hmem, hname, _, rfl, _, h, rfl⟩
  · rintro (⟨rfl, rfl⟩ | ⟨e, he, hname, q, rfl, m, hm, rfl⟩)
    · exact ⟨_, .here rfl, rfl⟩
    · exact ⟨m, .child he hname hm, rfl⟩

/-- What is seen in a directory is itself, and what the three loops of the walk find:
    the links to directories, the files, and what is in the directories in it. -/
theorem seenAt_names {stat : Stat} :
    (∃ q, p = path ++ q ∧ SeenAt (.directory stat true entries) q i) ↔
      (((p = path ∧ i = .directory stat.mode) ∨
        ∃ e ∈ names true entries, (∃ text target, e.2 = .link text target) ∧
          p = path ++ [e.1] ∧ i = e.2.info) ∨
        ∃ e ∈ names false entries, p = path ++ [e.1] ∧ i = e.2.info) ∨
        ∃ e ∈ (names true entries).attach, e.1.2.IsPlainDirectory ∧
          ∃ q, p = (path ++ [e.1.1]) ++ q ∧ SeenAt e.1.2 q i := by
  have hlink : ∀ {e : Name × Node}, e ∈ entries → ¬ e.1.IsCache → ¬ e.2.IsPlainDirectory →
      p = path ++ [e.1] → i = e.2.info →
      ∃ q, p = path ++ q ∧ SeenAt (.directory stat true entries) q i := fun he hname hn hp hi =>
    ⟨_, hp, seenAt_directory.2 (.inr ⟨_, he, hname, [], rfl,
      (seenAt_of_not_directory hn).2 ⟨rfl, hi⟩⟩)⟩
  constructor
  · rintro ⟨q, rfl, hq⟩
    rcases seenAt_directory.1 hq with ⟨rfl, rfl⟩ | ⟨⟨name, child⟩, he, hname, q, rfl, hchild⟩
    · exact .inl (.inl (.inl ⟨append_nil _, rfl⟩))
    · by_cases hdirectory : child.IsPlainDirectory
      · have hmem : (name, child) ∈ names true entries := mem_names.2 ⟨he, hname, by
          rcases child with _ | _ | _ | _
          · rfl
          all_goals exact hdirectory.elim⟩
        refine .inr ⟨⟨_, hmem⟩, List.mem_attach _ _, hdirectory, q, ?_, hchild⟩
        rw [append_assoc, singleton_append]
      · obtain ⟨rfl, rfl⟩ := (seenAt_of_not_directory hdirectory).1 hchild
        rcases hkind : child.isDirectory with _ | _
        · exact .inl (.inr ⟨_, mem_names.2 ⟨he, hname, hkind⟩, rfl, rfl⟩)
        · -- Of what is no directory, only a link counts as one.
          refine .inl (.inl (.inr ⟨_, mem_names.2 ⟨he, hname, hkind⟩, ?_, rfl, rfl⟩))
          rcases child with _ | _ | ⟨text, target⟩ | _
          · exact absurd trivial hdirectory
          · cases hkind
          · exact ⟨text, target, rfl⟩
          · cases hkind
  · rintro (((⟨rfl, rfl⟩ | ⟨e, he, ⟨text, target, hnode⟩, hp, hi⟩) | ⟨e, he, hp, hi⟩) |
      ⟨⟨e, he⟩, -, -, q, rfl, hq⟩)
    · exact ⟨[], (append_nil _).symm, seenAt_directory.2 (.inl ⟨rfl, rfl⟩)⟩
    · obtain ⟨he, hname, -⟩ := mem_names.1 he
      exact hlink he hname (by rw [hnode]; exact id) hp hi
    · obtain ⟨he, hname, hkind⟩ := mem_names.1 he
      refine hlink he hname (fun hdirectory => ?_) hp hi
      obtain ⟨name, child⟩ := e
      rcases child with _ | _ | _ | _
      · cases hkind
      all_goals exact hdirectory
    · obtain ⟨he, hname, -⟩ := mem_names.1 he
      exact ⟨e.1 :: q, by rw [append_assoc, singleton_append],
        seenAt_directory.2 (.inr ⟨e, he, hname, q, rfl, hq⟩)⟩

/-- The walk feeds what it sees from a directory on. -/
theorem adds_walk (h : walk sha256 requireTrusted path n s = some s') :
    Adds sha256 s s' fun p i => n.IsPlainDirectory ∧ ∃ q, p = path ++ q ∧ SeenAt n q i := by
  induction n using Node.induction generalizing path s s' with
  | directory stat listable entries ih =>
    rw [walk] at h
    split_ifs at h with hlistable htrusted
    · -- The walk passes over the directory.
      cases h
      refine Adds.refl fun p i hp => ?_
      obtain ⟨-, q, -, m, hm, -⟩ := hp
      cases hm with
      | here hm => exact absurd (hm.symm.trans hlistable) (by decide)
      | child => cases hlistable
    · obtain rfl : listable = true := by
        rcases listable with _ | _
        · exact absurd rfl hlistable
        · rfl
      obtain ⟨s₁, hs₁, h⟩ := Option.bind_eq_some_iff.1 h
      obtain ⟨s₂, hs₂, h⟩ := Option.bind_eq_some_iff.1 h
      obtain ⟨s₃, hs₃, h⟩ := Option.bind_eq_some_iff.1 h
      have hown : Adds sha256 s s₁ _ := adds_feed (p := path) (i := .directory stat.mode) hs₁ rfl
      have hlinks : Adds sha256 s₁ s₂ _ := adds_foldlM (fun e he s s' hs =>
        adds_feedDirectoryName (mem_names.1 he).2.2 hs) hs₂
      have hfiles := adds_foldlM (fun e he s s' hs => adds_feedFileName hs) hs₃
      have hdirectories := adds_foldlM (fun e _ s s' hs =>
        ih e.1 (mem_names.1 e.2).1 hs) h
      refine ((hown.trans hlinks fun _ _ => Iff.rfl).trans hfiles fun _ _ => Iff.rfl).trans
        hdirectories fun p i => ?_
      rw [← seenAt_names]
      exact and_iff_right trivial
  | file | link | special =>
    rw [walk] at h
    · cases h
      exact Adds.refl fun p i hp => hp.1
    · exact fun _ _ _ heq => by cases heq

/-! ## The digest -/

variable (sha256 requireTrusted) in
/-- The byte strings that are hashed for a tree: the contents of the files that are
    seen, and the stream of the records. -/
def hashed (t : Node) (a : List Byte) : Prop :=
  (∃ p i, SeenAt t p i ∧ a ∈ i.content) ∨
    ∃ s, walk sha256 requireTrusted [] t {} = some s ∧ a = s.stream

/-- What is described by the same records is the same, if no two files collide. -/
theorem Describe.subset {rs : List Record} (h : Describe sha256 rs Q) (h' : Describe sha256 rs Q')
    (hsha : ∀ p i p' i', Q p i → Q' p' i' → ∀ a ∈ i.content, ∀ b ∈ i'.content,
      sha256 a = sha256 b → a = b) (hpi : Q p i) : Q' p i := by
  obtain ⟨r, hr, hrec⟩ := h.all p i hpi
  obtain ⟨p', i', hpi', hrec'⟩ := h'.only r hr
  obtain ⟨rfl, rfl⟩ := recordOf_inj hrec hrec' (hsha p i p' i' hpi hpi')
  exact hpi'

theorem flatMap_values_inj {rs rs' : List Record}
    (h : rs.flatMap Record.values = rs'.flatMap Record.values) : rs = rs' := by
  induction rs generalizing rs' with
  | nil =>
    rcases rs' with _ | ⟨r', rs'⟩
    · rfl
    · cases h
  | cons r rs ih =>
    rcases rs' with _ | ⟨r', rs'⟩
    · cases h
    · rw [flatMap_cons, flatMap_cons] at h
      obtain ⟨hvalues, hrest⟩ := append_inj h rfl
      rw [Record.values_injective hvalues, ih hrest]

/-- The stream gives back the records. -/
theorem records_inj {rs rs' : List Record} (hrs : ∀ r ∈ rs, r.Fits) (hrs' : ∀ r ∈ rs', r.Fits)
    (h : rs.flatMap (fun r => r.values.flatMap (Framing.frame 8)) =
      rs'.flatMap fun r => r.values.flatMap (Framing.frame 8)) : rs = rs' := by
  rw [← flatMap_assoc, ← flatMap_assoc] at h
  refine flatMap_values_inj (Framing.flatMap_frame_inj (by decide) ?_ ?_ h)
  · intro v hv
    obtain ⟨r, hr, hv⟩ := mem_flatMap.1 hv
    exact hrs r hr v hv
  · intro v hv
    obtain ⟨r, hr, hv⟩ := mem_flatMap.1 hv
    exact hrs' r hr v hv

/-- An accepted tree is a directory, whose walk has been hashed. -/
theorem walk_of_treeSha256 {ancestry : Bool} {d : List Byte}
    (h : treeSha256 sha256 requireTrusted ancestry t = some d) : t.IsPlainDirectory ∧
      ∃ s, walk sha256 requireTrusted [] t {} = some s ∧ sha256 s.stream = d := by
  rw [treeSha256.eq_def] at h
  split at h
  · obtain ⟨-, h⟩ := Option.ite_none_left_eq_some.1 h
    obtain ⟨s, hs, rfl⟩ := Option.map_eq_some_iff.1 h
    exact ⟨trivial, s, hs, rfl⟩
  · cases h

/-- Two accepted trees with one digest, for which nothing collides, are seen alike. -/
theorem seenAt_iff_of_digest_eq {requireTrusted' ancestry ancestry' : Bool} {d : List Byte}
    (h : treeSha256 sha256 requireTrusted ancestry t = some d)
    (h' : treeSha256 sha256 requireTrusted' ancestry' t' = some d)
    (hsha : ∀ a b, hashed sha256 requireTrusted t a → hashed sha256 requireTrusted' t' b →
      sha256 a = sha256 b → a = b) : SeenAt t p i ↔ SeenAt t' p i := by
  obtain ⟨ht, s, hs, hd⟩ := walk_of_treeSha256 h
  obtain ⟨ht', s', hs', hd'⟩ := walk_of_treeSha256 h'
  have hstream : s.stream = s'.stream :=
    hsha _ _ (.inr ⟨s, hs, rfl⟩) (.inr ⟨s', hs', rfl⟩) (hd.trans hd'.symm)
  obtain ⟨rs, hrs, hdescribe⟩ := adds_walk hs
  obtain ⟨rs', hrs', hdescribe'⟩ := adds_walk hs'
  obtain rfl : rs = rs' := by
    rw [nil_append] at hrs hrs'
    exact records_inj hdescribe.fits hdescribe'.fits (hrs.symm.trans (hstream.trans hrs'))
  have hiff : ∀ {t : Node}, t.IsPlainDirectory → ∀ p i,
      (t.IsPlainDirectory ∧ ∃ q, p = [] ++ q ∧ SeenAt t q i) ↔ SeenAt t p i := by
    intro t ht p i
    constructor
    · rintro ⟨-, q, rfl, hq⟩
      exact hq
    · exact fun hp => ⟨ht, p, rfl, hp⟩
  have hseen : ∀ {p i a}, SeenAt t p i → a ∈ i.content → hashed sha256 requireTrusted t a :=
    fun hp ha => .inl ⟨_, _, hp, ha⟩
  have hseen' : ∀ {p i a}, SeenAt t' p i → a ∈ i.content → hashed sha256 requireTrusted' t' a :=
    fun hp ha => .inl ⟨_, _, hp, ha⟩
  constructor
  · intro hp
    refine (hiff ht' p i).1 (hdescribe.subset hdescribe' ?_ ((hiff ht p i).2 hp))
    intro p i p' i' hq hq' a ha b hb
    exact hsha a b (hseen ((hiff ht p i).1 hq) ha) (hseen' ((hiff ht' p' i').1 hq') hb)
  · intro hp
    refine (hiff ht p i).1 (hdescribe'.subset hdescribe ?_ ((hiff ht' p i).2 hp))
    intro p i p' i' hq hq' a ha b hb heq
    exact (hsha b a (hseen ((hiff ht p' i').1 hq') hb) (hseen' ((hiff ht' p i).1 hq) ha)
      heq.symm).symm

variable (sha256) in
/-- Two accepted trees with one digest are equal exactly if what is hidden in either
    of them is in the other one too. -/
theorem same_iff_of_digest_eq (requireTrusted requireTrusted' ancestry ancestry' : Bool)
    (t t' : Node) (d : List Byte) (h : treeSha256 sha256 requireTrusted ancestry t = some d)
    (h' : treeSha256 sha256 requireTrusted' ancestry' t' = some d)
    (hsha : ∀ a b, hashed sha256 requireTrusted t a → hashed sha256 requireTrusted' t' b →
      sha256 a = sha256 b → a = b) :
    Same t t' ↔ ∀ p i, (HiddenAt t p i → HasAt t' p i) ∧ (HiddenAt t' p i → HasAt t p i) := by
  have hseen : ∀ p i, SeenAt t p i ↔ SeenAt t' p i := fun _ _ => seenAt_iff_of_digest_eq h h' hsha
  constructor
  · intro hsame p i
    exact ⟨fun hp => (hsame p i).1 (hasAt_iff.2 (.inr hp)),
      fun hp => (hsame p i).2 (hasAt_iff.2 (.inr hp))⟩
  · intro hhidden p i
    constructor
    · intro hp
      rcases hasAt_iff.1 hp with hp | hp
      · exact hasAt_iff.2 (.inl ((hseen p i).1 hp))
      · exact (hhidden p i).1 hp
    · intro hp
      rcases hasAt_iff.1 hp with hp | hp
      · exact hasAt_iff.2 (.inl ((hseen p i).2 hp))
      · exact (hhidden p i).2 hp

/-! ## A script, and a directory that cannot be listed -/

/-- A name in ASCII. -/
def Name.of (s : String) (h : ascii s ≠ [] ∧ byte 0x2f ∉ ascii s ∧ ascii s ≠ [byte 0x2e] := by
    decide +kernel) : Name := ⟨ascii s, h.1, h.2.1, h.2.2⟩

def script : List Byte := ascii "#!/bin/sh" ++ [byte 0x0a]

/-- A directory with a script, of the owner. -/
def scripts (uid : ℕ) : Node :=
  .directory { uid, mode := 0o755 } true [(.of "run", .file { uid, mode := 0o755 } script true)]

def scriptDigest : List Byte :=
  ascii "a8076d3d28d21e02012b20eaf7dbf75409a6277134439025f282e368e3305abf"

def scriptsRecords : List Record :=
  [{ kind := .directory, path := [], mode := 0o755, payload := [] },
    { kind := .file, path := [.of "run"], mode := 0o755, payload := scriptDigest }]

def scriptsStream : List Byte :=
  scriptsRecords.flatMap fun r => r.values.flatMap (Framing.frame 8)

def scriptsDigest : List Byte :=
  ascii "a59193e5be665e2cdf55ff181a2b536d237bb4faa0b93d565b0a20e512591964"

/-- SHA-256, as far as it matters here. -/
def knownSha256 (l : List Byte) : List Byte :=
  if l = script then scriptDigest
  else if l = scriptsStream then scriptsDigest
  else byte 0 :: l

theorem knownSha256_injective : Function.Injective knownSha256 := by
  have hscript : ∀ l, scriptDigest ≠ byte 0 :: l := fun l h => by
    have hhead : scriptDigest.head? = some (byte 0) := congrArg List.head? h
    exact absurd hhead (by decide +kernel)
  have hscripts : ∀ l, scriptsDigest ≠ byte 0 :: l := fun l h => by
    have hhead : scriptsDigest.head? = some (byte 0) := congrArg List.head? h
    exact absurd hhead (by decide +kernel)
  have hne : scriptDigest ≠ scriptsDigest := by decide +kernel
  intro a b h
  rw [knownSha256, knownSha256] at h
  split_ifs at h with ha hb hb ha' hb hb' hb hb'
  · rw [ha, hb]
  · exact absurd h hne
  · exact absurd h (hscript b)
  · exact absurd h.symm hne
  · rw [ha', hb']
  · exact absurd h (hscripts b)
  · exact absurd h.symm (hscript a)
  · exact absurd h.symm (hscripts a)
  · exact (List.cons.inj h).2

theorem walk_scripts : ∀ uid ∈ [0, 1000], walk knownSha256 false [] (scripts uid) {} =
    some { stream := scriptsStream, entries := 2, totalBytes := 10 } := by
  intro uid huid
  rw [scripts, walk, if_neg (by decide), if_neg fun h => Bool.false_ne_true h.1]
  revert uid
  decide +kernel

theorem treeSha256_scripts {uid : ℕ} (huid : uid ∈ [0, 1000]) :
    treeSha256 knownSha256 false true (scripts uid) = some scriptsDigest := by
  have hdigest : knownSha256 scriptsStream = scriptsDigest := by decide +kernel
  rw [treeSha256.eq_def]
  change (if _ then none else _) = _
  rw [if_neg (by decide), walk_scripts uid huid, Option.map_some, hdigest]

/-- The digest does not say who owns the script. -/
theorem same_iff_of_digest_eq_scripts : Same (scripts 0) (scripts 1000) ↔
    ∀ p i, (HiddenAt (scripts 0) p i → HasAt (scripts 1000) p i) ∧
      (HiddenAt (scripts 1000) p i → HasAt (scripts 0) p i) :=
  same_iff_of_digest_eq knownSha256 false false true true (scripts 0) (scripts 1000) scriptsDigest
    (treeSha256_scripts (by decide)) (treeSha256_scripts (by decide)) fun _ _ _ _ h =>
      knownSha256_injective h

/-- A directory without entries. -/
def bare : Node := .directory { uid := 0, mode := 0o755 } true []

/-- The same, with a directory that cannot be listed, in which there is a script. -/
def locked : Node :=
  .directory { uid := 0, mode := 0o755 } true
    [(.of "bin", .directory { uid := 0, mode := 0 } false
      [(.of "run", .file { uid := 0, mode := 0o755 } script true)])]

def bareRecord : Record := { kind := .directory, path := [], mode := 0o755, payload := [] }

/-- What the walk makes of both. -/
def bareProgress : Progress where
  stream := bareRecord.values.flatMap (Framing.frame 8)
  entries := 1

theorem feed_bareRecord : ({} : Progress).feed bareRecord = some bareProgress := rfl

theorem walk_bare : walk sha256 false [] bare {} = some bareProgress := by
  rw [bare, walk, if_neg (by decide), if_neg (by decide)]
  change (({} : Progress).feed bareRecord >>= fun s => some s) = _
  rw [feed_bareRecord]
  rfl

/-- The walk passes over a directory that cannot be listed. -/
theorem walk_unlistable {stat : Stat} :
    walk sha256 requireTrusted path (.directory stat false entries) s = some s := by
  rw [walk, if_pos rfl]

theorem walk_locked : walk sha256 false [] locked {} = some bareProgress := by
  rw [locked, walk, if_neg (by decide), if_neg (by decide)]
  change (({} : Progress).feed bareRecord >>= fun s =>
    walk sha256 false [.of "bin"] (.directory { uid := 0, mode := 0 } false _) s >>= pure) = _
  rw [feed_bareRecord]
  change (walk _ _ _ _ bareProgress >>= pure) = _
  rw [walk_unlistable]
  rfl

/-- Both trees are accepted, and have one digest, whatever the hash function; but only
    one of them has the directory with the script. -/
theorem same_iff_of_digest_eq_fails :
    (∀ sha256, treeSha256 sha256 false true bare = some (sha256 bareProgress.stream) ∧
      treeSha256 sha256 false true locked = some (sha256 bareProgress.stream)) ∧
      ¬ Same bare locked := by
  refine ⟨fun sha256 => ⟨?_, ?_⟩, fun hsame => ?_⟩
  · rw [treeSha256.eq_def]
    change (if _ then none else Option.map _ (walk sha256 false [] bare {})) = _
    rw [if_neg (by decide), walk_bare, Option.map_some]
  · rw [treeSha256.eq_def]
    change (if _ then none else Option.map _ (walk sha256 false [] locked {})) = _
    rw [if_neg (by decide), walk_locked, Option.map_some]
  · have hlocked : HasAt locked [.of "bin"] (.directory 0) :=
      ⟨_, .child mem_cons_self (by decide +kernel) (.here _), rfl⟩
    obtain ⟨n, hn, -⟩ := (hsame _ _).2 hlocked
    cases hn with
    | child hmem => cases hmem

end ReticulumPi.Artifacts
