import ReticulumPi.Auth.Sessions

/-!
# Revoked sessions stay revoked

A token that has been logged out, or was issued before a change of the password, is in no
row of the database, and no validation that begins later accepts it
(`revoked_stays_revoked`), in the runs in which a validation writes a session back only
if it is still there, or has not been revoked meanwhile.
-/

namespace ReticulumPi.Auth

open List

namespace System

variable (s : System)

/-- An orderly step: when a session is written back, it is still in the database, or it has
    not been revoked and no change of the password is deleting the sessions it has listed. -/
def Orderly : Event → Prop
  | .go n => ∀ token late session, s.pcs n = .sliding token late session →
    token ∈ s.auth.sessions.keys ∨
      token ∉ s.revoked ∧ ∀ m remaining, s.pcs m ≠ .deleting remaining .change
  | _ => True

/-- What holds where a thread is. -/
def Fits (n : ℕ) : Pc → Prop
  | .reading token late => late = true → token ∈ s.revoked
  | .comparing token late _ | .aging token late _ | .sliding token late _ =>
    late = false ∧ token ∈ s.issued
  | .counting _ _ | .choosing _ _ | .choosingAny _ _ | .oldest _ _ _ _ | .evicting _ _ _
  | .rehashed | .listing .change => s.auth.credentialLock = some n
  | .deleting remaining .change => s.auth.credentialLock = some n ∧
    ∀ token ∈ s.auth.sessions.keys, token ∈ remaining
  | _ => True

/-- The invariant. -/
structure Sound : Prop where
  issued : ∀ token ∈ s.auth.sessions.keys, token ∈ s.issued
  revoked : ∀ token ∈ s.revoked, token ∉ s.auth.sessions.keys
  accepted : ∀ a ∈ s.accepted, a.2 = false
  fits : ∀ n, s.Fits n (s.pcs n)

variable {s} {s' : System} {n : ℕ} {pc : Pc}

theorem pcs_goTo (m : ℕ) : (s.goTo n pc).pcs m = if m = n then pc else s.pcs m :=
  Function.update_apply _ _ _ _

/-- What holds for a thread still holds after a step of another. -/
theorem Fits.mono {m : ℕ} (h : s.Fits m pc) (hissued : ∀ t ∈ s.issued, t ∈ s'.issued)
    (hrevoked : ∀ t ∈ s.revoked, t ∈ s'.revoked)
    (hlock : s.auth.credentialLock = some m → s'.auth.credentialLock = some m)
    (hkeys : (∃ remaining, pc = .deleting remaining .change) →
      ∀ t ∈ s'.auth.sessions.keys, t ∈ s.auth.sessions.keys) : s'.Fits m pc := by
  cases pc with
  | reading token late => exact fun hl => hrevoked token (h hl)
  | comparing | aging | sliding => exact ⟨h.1, hissued _ h.2⟩
  | counting | choosing | choosingAny | oldest | evicting | rehashed => exact hlock h
  | listing caller =>
    cases caller with
    | validation => trivial
    | change => exact hlock h
  | deleting remaining caller =>
    cases caller with
    | validation => trivial
    | change => exact ⟨hlock h.1, fun t ht => h.2 t (hkeys ⟨_, rfl⟩ t ht)⟩
  | _ => trivial

variable (h : s.Sound)
include h

/-- A step of a thread that issues and revokes nothing and adds no session. -/
theorem Sound.step (hissued : s'.issued = s.issued) (hrevoked : s'.revoked = s.revoked)
    (haccepted : ∀ a ∈ s'.accepted, a.2 = false)
    (hlock : ∀ m, m ≠ n → s.auth.credentialLock = some m → s'.auth.credentialLock = some m)
    (hkeys : ∀ t ∈ s'.auth.sessions.keys, t ∈ s.auth.sessions.keys)
    (hpcs : s'.pcs = Function.update s.pcs n pc) (hfits : s'.Fits n pc) : s'.Sound where
  issued t ht := hissued ▸ h.issued t (hkeys t ht)
  revoked t ht hmem := h.revoked t (hrevoked ▸ ht) (hkeys t hmem)
  accepted := haccepted
  fits m := by
    rw [hpcs, Function.update_apply]
    split
    · next hm => exact hm ▸ hfits
    · next hm =>
      exact (h.fits m).mono (fun _ ht => hissued ▸ ht) (fun _ ht => hrevoked ▸ ht) (hlock m hm)
        fun _ => hkeys

/-- A step that changes nothing but where a thread is. -/
theorem Sound.goTo (hfits : s.Fits n pc) : (s.goTo n pc).Sound :=
  h.step rfl rfl h.accepted (fun _ _ h => h) (fun _ h => h) rfl
    (hfits.mono (fun _ h => h) (fun _ h => h) (fun h => h) fun _ _ h => h)

theorem Sound.delete {token : String}
    (hfits : ({ s with auth := s.auth.delete token } : System).Fits n pc) :
    ({ s with auth := s.auth.delete token }.goTo n pc).Sound :=
  h.step rfl rfl h.accepted (fun _ _ h => h) (fun _ ht => (Dict.mem_keys_erase.1 ht).2) rfl
    (hfits.mono (fun _ h => h) (fun _ h => h) (fun h => h) fun _ _ h => h)

theorem Sound.unlock (hlock : s.auth.credentialLock = some n) : (s.unlock n).Sound :=
  h.step rfl rfl h.accepted (fun m hm hm' => by
    rw [hlock] at hm'
    exact absurd (Option.some.inj hm').symm hm) (fun _ h => h) rfl trivial

theorem Sound.accept {token : String} {late : Bool} (hlate : late = false) :
    (s.accept n token late).Sound :=
  h.step rfl rfl (fun a ha => (mem_cons.1 ha).elim (fun h => h ▸ hlate) (h.accepted a))
    (fun _ _ h => h) (fun _ h => h) rfl trivial

/-- A session is written back, in the order the guard asks for. -/
theorem Sound.slide {token : String} {late : Bool} {session : Session}
    (hpc : s.pcs n = .sliding token late session) (ho : s.Orderly (.go n)) :
    ({ s with auth := s.auth.put token session }.accept n token late).Sound := by
  obtain ⟨hlate, hissued⟩ : late = false ∧ token ∈ s.issued := by
    have hfits := h.fits n
    rwa [hpc] at hfits
  have hput : ({ s with auth := s.auth.put token session } : System).Sound := by
    refine ⟨fun t ht => ?_, fun t ht hmem => ?_, h.accepted, fun m => ?_⟩
    · rcases Dict.mem_keys_set.1 ht with rfl | ht
      · exact hissued
      · exact h.issued t ht
    · rcases Dict.mem_keys_set.1 hmem with rfl | hmem
      · rcases ho _ _ _ hpc with hkey | ⟨hnot, -⟩
        · exact h.revoked t ht hkey
        · exact hnot ht
      · exact h.revoked t ht hmem
    · refine (h.fits m).mono (fun _ h => h) (fun _ h => h) (fun h => h) ?_
      rintro ⟨remaining, hm⟩ t ht
      rcases Dict.mem_keys_set.1 ht with rfl | ht
      · exact (ho _ _ _ hpc).resolve_right fun hno => hno.2 m remaining hm
      · exact ht
  exact hput.accept hlate

/-- Once a change of the password has deleted all sessions, all tokens are revoked. -/
theorem Sound.finish (hpc : s.pcs n = .deleting [] .change) :
    ({ s with revoked := s.issued ++ s.revoked }.unlock n).Sound := by
  obtain ⟨hlock, hnone⟩ : s.auth.credentialLock = some n ∧
      ∀ token ∈ s.auth.sessions.keys, token ∈ ([] : List String) := by
    have hfits := h.fits n
    rwa [hpc] at hfits
  have hrevoked : ({ s with revoked := s.issued ++ s.revoked } : System).Sound :=
    ⟨h.issued, fun t _ hmem => not_mem_nil (hnone t hmem), h.accepted, fun m =>
      (h.fits m).mono (fun _ h => h) (fun _ h => mem_append_right _ h) (fun h => h)
        fun _ _ h => h⟩
  exact hrevoked.unlock hlock

theorem Sound.logout (token : String) :
    ({ s with auth := s.auth.delete token, revoked := token :: s.revoked }.goTo n .idle).Sound := by
  have hrevoked : ({ s with
      auth := s.auth.delete token, revoked := token :: s.revoked } : System).Sound := by
    refine ⟨fun t ht => h.issued t (Dict.mem_keys_erase.1 ht).2, fun t ht hmem => ?_, h.accepted,
      fun m => (h.fits m).mono (fun _ h => h) (fun _ h => mem_cons_of_mem _ h) (fun h => h)
        fun _ t ht => (Dict.mem_keys_erase.1 ht).2⟩
    obtain ⟨hne, hkey⟩ := Dict.mem_keys_erase.1 hmem
    rcases mem_cons.1 ht with rfl | ht
    · exact hne rfl
    · exact h.revoked t ht hkey
  exact hrevoked.goTo trivial

theorem go_step (ho : s.Orderly (.go n)) (hstep : s.go n = some s') : s'.Sound := by
  have hfits := h.fits n
  rw [go] at hstep
  cases hpc : s.pcs n with
  | reading token late =>
    rw [hpc] at hstep hfits
    dsimp only at hstep
    cases hrow : s.auth.sessions.get? token with
    | none =>
      rw [hrow] at hstep
      cases hstep
      exact h.goTo trivial
    | some row =>
      rw [hrow] at hstep
      cases hstep
      -- the token of a late validation has been revoked, and is in no row
      have hkey : token ∈ s.auth.sessions.keys := Dict.mem_keys.2 ⟨row, hrow⟩
      refine h.goTo ⟨?_, h.issued token hkey⟩
      cases late with
      | false => rfl
      | true => exact absurd hkey (h.revoked token (hfits rfl))
  | comparing token late session =>
    rw [hpc] at hstep hfits
    dsimp only at hstep
    split_ifs at hstep
    · cases hstep
      exact h.goTo trivial
    · cases hstep
      exact h.goTo hfits
  | expiring token =>
    rw [hpc] at hstep
    cases hstep
    exact h.delete trivial
  | sliding token late session =>
    rw [hpc] at hstep
    cases hstep
    exact h.slide hpc ho
  | listing caller =>
    rw [hpc] at hstep hfits
    cases hstep
    cases caller with
    | validation => exact h.goTo trivial
    | change => exact h.goTo ⟨hfits, fun _ ht => ht⟩
  | deleting remaining caller =>
    rw [hpc] at hstep hfits
    cases remaining with
    | nil =>
      cases caller with
      | validation =>
        cases hstep
        exact h.goTo trivial
      | change =>
        cases hstep
        exact h.finish hpc
    | cons token remaining =>
      cases hstep
      cases caller with
      | validation => exact h.delete trivial
      | change =>
        refine h.delete ⟨hfits.1, fun t ht => ?_⟩
        obtain ⟨hne, ht⟩ := Dict.mem_keys_erase.1 ht
        exact (mem_cons.1 (hfits.2 t ht)).resolve_left hne
  | counting token remoteIp =>
    rw [hpc] at hstep hfits
    dsimp only at hstep
    split_ifs at hstep
    · cases hstep
      exact h.unlock hfits
    · cases hstep
      exact h.goTo hfits
  | choosing token remoteIp =>
    rw [hpc] at hstep hfits
    dsimp only at hstep
    split at hstep
    all_goals
      cases hstep
      exact h.goTo hfits
  | choosingAny token remoteIp =>
    rw [hpc] at hstep hfits
    cases hstep
    exact h.goTo hfits
  | oldest token remoteIp remaining best =>
    rw [hpc] at hstep hfits
    cases remaining with
    | nil | cons t remaining =>
      dsimp only at hstep
      split at hstep
      · cases hstep
        exact h.unlock hfits
      · cases hstep
        exact h.goTo hfits
  | evicting token remoteIp victim =>
    rw [hpc] at hstep hfits
    dsimp only at hstep
    split at hstep
    · cases hstep
      exact h.unlock hfits
    · cases hstep
      exact h.delete hfits
  | loggingOut token =>
    rw [hpc] at hstep
    cases hstep
    exact h.logout token
  | rehashed =>
    rw [hpc] at hstep hfits
    cases hstep
    exact h.step rfl rfl h.accepted (fun _ _ h => h) (fun _ h => h) rfl hfits
  | idle | aging | loggingIn | changing | sweeping =>
    rw [hpc] at hstep
    cases hstep

/-- A login adds a session with a new token, while no other thread holds the lock. -/
theorem Sound.enter (hlock : s.auth.credentialLock = none) {token remoteIp : String}
    (hnew : token ∉ s.revoked) (session : Session) :
    ({ s with
      auth := { s.auth.put token session with credentialLock := some n }
      issued := token :: s.issued }.goTo n (.counting token remoteIp)).Sound := by
  refine ⟨fun t ht => ?_, fun t ht hmem => ?_, h.accepted, fun m => ?_⟩
  · rcases Dict.mem_keys_set.1 ht with rfl | ht
    · exact mem_cons_self
    · exact mem_cons_of_mem _ (h.issued t ht)
  · rcases Dict.mem_keys_set.1 hmem with rfl | hmem
    · exact hnew ht
    · exact h.revoked t ht hmem
  · rw [pcs_goTo]
    split
    · next hm => exact hm ▸ rfl
    · have hfits := h.fits m
      refine hfits.mono (fun _ h => mem_cons_of_mem _ h) (fun _ h => h)
        (fun hm => ?_) ?_
      · rw [hlock] at hm
        cases hm
      · rintro ⟨remaining, hm⟩
        rw [hm, Fits, hlock] at hfits
        cases hfits.1

theorem sound_step {e : Event} (ho : s.Orderly e) (hstep : s.next e = some s') : s'.Sound := by
  cases e with
  | go n => exact go_step h ho hstep
  | begin n request =>
    rw [next] at hstep
    split_ifs at hstep
    cases hstep
    refine h.goTo ?_
    cases request with
    | validateToken token => exact fun hl => of_decide_eq_true hl
    | changePassword current new =>
      rw [start]
      split
      · trivial
      · trivial
    | _ => trivial
  | look n now =>
    have hfits := h.fits n
    rw [next] at hstep
    cases hpc : s.pcs n with
    | aging token late session =>
      rw [hpc] at hstep hfits
      dsimp only at hstep
      split_ifs at hstep
      · cases hstep
        exact h.goTo trivial
      · cases hstep
        exact h.goTo hfits
      · cases hstep
        exact h.accept hfits.1
    | sweeping =>
      rw [hpc] at hstep
      cases hstep
      refine h.step rfl rfl h.accepted (fun _ _ h => h) (fun t ht => ?_) rfl trivial
      obtain ⟨row, hrow⟩ := Dict.mem_keys.1 ht
      have hrow := Dict.get?_filter.symm.trans hrow
      exact Dict.mem_keys.2 ⟨row, Option.eq_some_of_filter_eq_some hrow⟩
    | _ =>
      rw [hpc] at hstep
      cases hstep
  | enter n allowed token now =>
    rw [next] at hstep
    cases hpc : s.pcs n with
    | loggingIn password remoteIp =>
      rw [hpc] at hstep
      dsimp only at hstep
      split_ifs at hstep with hfree
      · cases hstep
        exact h.goTo trivial
      · cases hstep
        simp only [not_or, not_not] at hfree
        exact h.enter hfree.1 hfree.2.2 _
    | _ =>
      rw [hpc] at hstep
      cases hstep
  | rehash n replacement =>
    rw [next.eq_def] at hstep
    dsimp only at hstep
    cases hpc : s.pcs n with
    | changing current new =>
      rw [hpc] at hstep
      dsimp only at hstep
      split_ifs at hstep with hfree
      · cases hstep
        exact h.goTo trivial
      · cases replacement with
        | none =>
          cases hstep
          exact h.goTo trivial
        | some replacement =>
          cases hstep
          refine h.step rfl rfl h.accepted (fun m _ hm => ?_) (fun _ h => h) rfl rfl
          rw [not_not.1 hfree] at hm
          cases hm
    | _ =>
      rw [hpc] at hstep
      cases hstep
  | restart passwordHash =>
    cases hstep
    exact ⟨h.issued, h.revoked, h.accepted, fun _ => trivial⟩

end System

/-- In the runs whose steps are orderly, a token that has been revoked is in no row of the
    database, and no validation that began after that has accepted it. -/
theorem revoked_stays_revoked {s : System} (h : system.Reach System.Orderly s) :
    (∀ token ∈ s.revoked, token ∉ s.auth.sessions.keys) ∧ ∀ a ∈ s.accepted, a.2 = false := by
  have hsound : s.Sound := by
    refine h.induction (fun s hs => ?_) fun s e s' hs ho hstep => System.sound_step hs ho hstep
    obtain ⟨auth, -, -, rfl⟩ := hs
    exact ⟨fun _ h => h, nofun, nofun, fun _ => trivial⟩
  exact ⟨hsound.revoked, hsound.accepted⟩

/-- A dashboard with a session that has no checksum. -/
def dashboard : AuthManager where
  verifyPassword password hash := password = hash
  sha256 := id
  normalizeIp := id
  sessionTimeout := 600
  lastSeenThrottle := 60
  maxSessions := 10
  passwordHashFile := true
  passwordHash := "old password"
  passwordHashChecksum := "old password"
  sessions := Dict.set ∅ "token" ⟨⟨0, 0, "10.0.0.2", none, some 600⟩, some 600⟩

def start : System := .opened dashboard

/-- A validation that slides the session, then a logout and another validation. -/
theorem revoked_stays_revoked_logout : ∃ s ∈ [Event.begin 0 (.validateToken "token"), .go 0, .go 0,
      .look 0 100, .go 0, .begin 1 (.logout "token"), .go 1, .begin 0 (.validateToken "token"),
      .go 0].foldlM System.next start,
    s.revoked = ["token"] ∧ s.accepted = [("token", false)] ∧ "token" ∉ s.auth.sessions.keys := by
  have hstart : system.Reach System.Orderly start := Transition.Reach.init ⟨dashboard, rfl, rfl, rfl⟩
  have haged := (((hstart.step (a := Event.begin 0 (.validateToken "token")) trivial rfl).step
    (a := Event.go 0) (fun _ _ _ => Pc.noConfusion) rfl).step
    (a := Event.go 0) (fun _ _ _ => Pc.noConfusion) rfl).step (a := Event.look 0 100) trivial rfl
  -- the session is still there when it is written back
  have hslid := haged.step (a := Event.go 0) (fun token late session h => by
    cases h
    exact .inl (by decide)) rfl
  have hdone := (((hslid.step (a := Event.begin 1 (.logout "token")) trivial rfl).step
    (a := Event.go 1) (fun _ _ _ => Pc.noConfusion) rfl).step
    (a := Event.begin 0 (.validateToken "token")) trivial rfl).step
    (a := Event.go 0) (fun _ _ _ => Pc.noConfusion) rfl
  exact ⟨_, rfl, rfl, rfl, (revoked_stays_revoked hdone).1 "token" (by decide)⟩

/-- A validation reads the session before a change of the password deletes it, and writes it
    back after that; without a checksum, the session is accepted again. -/
theorem resurrects : ∃ s, system.Reachable s ∧ "token" ∈ s.revoked ∧
    "token" ∈ s.auth.sessions.keys ∧ ("token", true) ∈ s.accepted := by
  have hrun : [Event.begin 0 (.validateToken "token"), .go 0, .go 0, .look 0 100,
      .begin 1 (.changePassword "old password" "new password"), .rehash 1 (some "new password"),
      .go 1, .go 1, .go 1, .go 1, .go 0, .begin 2 (.validateToken "token"), .go 2, .go 2,
      .look 2 110].foldlM System.next start = some _ := rfl
  refine ⟨_, .foldlM (.init ⟨dashboard, rfl, rfl, rfl⟩) hrun,
    ?_, ?_, ?_⟩
  all_goals decide

end ReticulumPi.Auth
