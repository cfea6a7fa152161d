import ChatRoom.CommandLine
import Mathlib.Data.List.Basic
/-!
# CommandGrammar — the commands of `client.cpp` against their documentation

By the documentation a command is the first word of its line.  `main` tells it by the characters the line starts with,
and takes the words after the first as arguments, whatever the first one is (`readCommand_register` and its siblings).
The two views agree on a line exactly when each keyword that has its arguments is the first word of the line where it
starts the line, and nowhere else (`followsGrammar_iff`).
-/
namespace ChatRoom

abbrev words (line : Bytes) : List Bytes := Scan.words isspace line

/-- The line is run as the documentation of the commands says. -/
structure FollowsGrammar (line : Bytes) : Prop where
  register : ∀ u p, readCommand line = .registerWithServer u p ↔ [lit "REGISTER", u, p] <+: words line
  login : ∀ u p, readCommand line = .loginToServer u p ↔ [lit "LOGIN", u, p] <+: words line
  logout : readCommand line = .logoutFromServer ↔ [lit "LOGOUT"] <+: words line
  chat : ∀ u, readCommand line = .chatWithClient u ↔ [lit "CHAT", u] <+: words line
  other : (∀ u p, ¬ [lit "REGISTER", u, p] <+: words line) → (∀ u p, ¬ [lit "LOGIN", u, p] <+: words line) →
    ¬ [lit "LOGOUT"] <+: words line → (∀ u, ¬ [lit "CHAT", u] <+: words line) →
    readCommand line = .exit ∨ readCommand line = .usage ∨ readCommand line = .unknown

/-- The keywords, with how many arguments each needs. -/
def keywords : List (Bytes × Nat) := [(lit "REGISTER", 2), (lit "LOGIN", 2), (lit "LOGOUT", 0), (lit "CHAT", 1)]

/-- A keyword that has its arguments starts the line exactly when it is its first word. -/
def Plain (line : Bytes) : Prop :=
  ∀ k ∈ keywords, k.2 < (words line).length → (k.1 <+: line ↔ (words line).head? = some k.1)

/-! ## What `main` runs -/

/-- No two of the keywords start the same line. -/
theorem not_prefix_of_incomparable {k k' line : Bytes} (h : k <+: line) (hne : ¬ k <+: k' ∧ ¬ k' <+: k) :
    ¬ k' <+: line :=
  fun h' => (List.prefix_or_prefix_of_prefix h h').elim hne.1 hne.2

theorem extract_ne_nil {k line : Bytes} (h : k <+: line) (hk : k.head?.map isspace = some false) :
    (extract line).1 ≠ [] := by
  obtain ⟨t, rfl⟩ := h
  cases k with
  | nil => cases hk
  | cons b k =>
    have hb : isspace b = false := Option.some.inj hk
    simp [extract, Scan.word, hb]

/-- Two arguments are there when two more words can be extracted, which are then the arguments. -/
theorem two_args {line : Bytes} (hcmd : (extract line).1 ≠ []) (u p : Bytes) :
    (∃ t, [t, u, p] <+: words line) ↔
      ¬ ((extract (extract line).2).1 = [] ∨ (extract (extract (extract line).2).2).1 = []) ∧
        u = (extract (extract line).2).1 ∧ p = (extract (extract (extract line).2).2).1 := by
  simp only [Scan.cons_prefix_words, List.nil_prefix, and_true, not_or]
  constructor
  · rintro ⟨t, -, -, hu, rfl, hp, rfl⟩
    exact ⟨⟨hu, hp⟩, rfl, rfl⟩
  · rintro ⟨⟨hu, hp⟩, rfl, rfl⟩
    exact ⟨_, hcmd, rfl, hu, rfl, hp, rfl⟩

theorem one_arg {line : Bytes} (hcmd : (extract line).1 ≠ []) (u : Bytes) :
    (∃ t, [t, u] <+: words line) ↔ (extract (extract line).2).1 ≠ [] ∧ u = (extract (extract line).2).1 := by
  simp only [Scan.cons_prefix_words, List.nil_prefix, and_true]
  constructor
  · rintro ⟨t, -, -, hu, rfl⟩
    exact ⟨hu, rfl⟩
  · rintro ⟨hu, rfl⟩
    exact ⟨_, hcmd, rfl, hu, rfl⟩

/-- What a line is run as, by what it starts with and its words. -/
inductive Reads (line : Bytes) : Command → Prop
  | register (t u p : Bytes) (hkey : lit "REGISTER" <+: line) (hargs : [t, u, p] <+: words line) :
    Reads line (.registerWithServer u p)
  | login (t u p : Bytes) (hkey : lit "LOGIN" <+: line) (hargs : [t, u, p] <+: words line) :
    Reads line (.loginToServer u p)
  | logout (hkey : lit "LOGOUT" <+: line) : Reads line .logoutFromServer
  | chat (t u : Bytes) (hkey : lit "CHAT" <+: line) (hargs : [t, u] <+: words line) : Reads line (.chatWithClient u)
  | exit (hline : line = lit "EXIT") : Reads line .exit
  | usage : Reads line .usage
  | unknown : Reads line .unknown

theorem reads (line : Bytes) : Reads line (readCommand line) := by
  unfold readCommand
  split
  · rename_i hkey
    have hcmd := extract_ne_nil hkey (by decide)
    dsimp only
    split
    · exact .usage
    · rename_i hargs
      obtain ⟨t, ht⟩ := (two_args hcmd _ _).2 ⟨hargs, rfl, rfl⟩
      exact .register t _ _ hkey ht
  split
  · rename_i hkey
    have hcmd := extract_ne_nil hkey (by decide)
    dsimp only
    split
    · exact .usage
    · rename_i hargs
      obtain ⟨t, ht⟩ := (two_args hcmd _ _).2 ⟨hargs, rfl, rfl⟩
      exact .login t _ _ hkey ht
  split
  · rename_i hkey
    exact .logout hkey
  split
  · rename_i hkey
    have hcmd := extract_ne_nil hkey (by decide)
    dsimp only
    split
    · exact .usage
    · rename_i harg
      obtain ⟨t, ht⟩ := (one_arg hcmd _).2 ⟨harg, rfl⟩
      exact .chat t _ hkey ht
  split
  · rename_i hline
    exact .exit hline
  · exact .unknown

theorem reads_of_eq {line : Bytes} {c : Command} (h : readCommand line = c) : Reads line c := h ▸ reads line

theorem readCommand_register (line u p : Bytes) :
    readCommand line = .registerWithServer u p ↔ lit "REGISTER" <+: line ∧ ∃ t, [t, u, p] <+: words line := by
  constructor
  · intro h
    cases reads_of_eq h with
    | register t _ _ hkey hargs => exact ⟨hkey, t, hargs⟩
  · rintro ⟨hkey, hargs⟩
    have hcmd := extract_ne_nil hkey (by decide)
    obtain ⟨hyes, rfl, rfl⟩ := (two_args hcmd u p).1 hargs
    unfold readCommand
    rw [if_pos hkey]
    exact if_neg hyes

theorem readCommand_login (line u p : Bytes) :
    readCommand line = .loginToServer u p ↔ lit "LOGIN" <+: line ∧ ∃ t, [t, u, p] <+: words line := by
  constructor
  · intro h
    cases reads_of_eq h with
    | login t _ _ hkey hargs => exact ⟨hkey, t, hargs⟩
  · rintro ⟨hkey, hargs⟩
    have hcmd := extract_ne_nil hkey (by decide)
    obtain ⟨hyes, rfl, rfl⟩ := (two_args hcmd u p).1 hargs
    unfold readCommand
    rw [if_neg (not_prefix_of_incomparable hkey (by decide)), if_pos hkey]
    exact if_neg hyes

theorem readCommand_logout (line : Bytes) :
    readCommand line = .logoutFromServer ↔ lit "LOGOUT" <+: line ∧ ∃ t, [t] <+: words line := by
  constructor
  · intro h
    cases reads_of_eq h with
    | logout hkey =>
      have hcmd := extract_ne_nil hkey (by decide)
      exact ⟨hkey, _, Scan.cons_prefix_words isspace |>.2 ⟨hcmd, rfl, List.nil_prefix⟩⟩
  · rintro ⟨hkey, -⟩
    unfold readCommand
    rw [if_neg (not_prefix_of_incomparable hkey (by decide)),
      if_neg (not_prefix_of_incomparable hkey (by decide)), if_pos hkey]

theorem readCommand_chat (line u : Bytes) :
    readCommand line = .chatWithClient u ↔ lit "CHAT" <+: line ∧ ∃ t, [t, u] <+: words line := by
  constructor
  · intro h
    cases reads_of_eq h with
    | chat t _ hkey hargs => exact ⟨hkey, t, hargs⟩
  · rintro ⟨hkey, hargs⟩
    have hcmd := extract_ne_nil hkey (by decide)
    obtain ⟨hyes, rfl⟩ := (one_arg hcmd u).1 hargs
    unfold readCommand
    rw [if_neg (not_prefix_of_incomparable hkey (by decide)), if_neg (not_prefix_of_incomparable hkey (by decide)),
      if_neg (not_prefix_of_incomparable hkey (by decide)), if_pos hkey]
    exact if_neg hyes

theorem readCommand_exit (line : Bytes) : readCommand line = .exit ↔ line = lit "EXIT" := by
  constructor
  · intro h
    cases reads_of_eq h with
    | exit hline => exact hline
  · rintro rfl
    decide

/-! ## Against the documentation -/

/-- For one keyword: taking the arguments behind any first word, where the keyword starts the line, is taking them
behind the keyword exactly when the two tests agree on a line that has the arguments. -/
theorem dispatch_iff {starts : Prop} {k : Bytes} {n : Nat} {ws : List Bytes} :
    (∀ args : List Bytes, args.length = n → ((starts ∧ ∃ t, t :: args <+: ws) ↔ k :: args <+: ws)) ↔
      (n < ws.length → (starts ↔ ws.head? = some k)) := by
  constructor
  · intro h hn
    cases ws with
    | nil => cases hn
    | cons t rest =>
      have hargs : t :: rest.take n <+: t :: rest := (List.cons_prefix_cons).2 ⟨rfl, List.take_prefix n rest⟩
      have hlen : (rest.take n).length = n := List.length_take_of_le (Nat.lt_succ_iff.1 hn)
      have hiff := h (rest.take n) hlen
      rw [List.cons_prefix_cons] at hiff
      simp only [List.take_prefix, and_true] at hiff
      rw [List.head?_cons, Option.some.injEq, eq_comm, ← hiff]
      exact ⟨fun hs => ⟨hs, t, hargs⟩, And.left⟩
  · intro h args hlen
    constructor
    · rintro ⟨hs, t, ht⟩
      obtain ⟨rest, rfl⟩ := ht
      have hn : n < (t :: args ++ rest).length := by
        rw [List.length_append, List.length_cons, hlen]
        omega
      have hhead := (h hn).1 hs
      cases hhead
      exact List.prefix_append _ _
    · rintro ⟨rest, rfl⟩
      have hn : n < (k :: args ++ rest).length := by
        rw [List.length_append, List.length_cons, hlen]
        omega
      exact ⟨(h hn).2 rfl, k, List.prefix_append _ _⟩

theorem dispatch_one {starts : Prop} {k : Bytes} {ws : List Bytes} :
    (∀ u, (starts ∧ ∃ t, [t, u] <+: ws) ↔ [k, u] <+: ws) ↔ (1 < ws.length → (starts ↔ ws.head? = some k)) := by
  rw [← dispatch_iff]
  constructor
  · intro h args hlen
    obtain ⟨u, rfl⟩ := List.length_eq_one_iff.1 hlen
    exact h u
  · intro h u
    exact h [u] rfl

theorem dispatch_two {starts : Prop} {k : Bytes} {ws : List Bytes} :
    (∀ u p, (starts ∧ ∃ t, [t, u, p] <+: ws) ↔ [k, u, p] <+: ws) ↔ (2 < ws.length → (starts ↔ ws.head? = some k)) := by
  rw [← dispatch_iff]
  constructor
  · intro h args hlen
    obtain ⟨u, p, rfl⟩ := List.length_eq_two.1 hlen
    exact h u p
  · intro h u p
    exact h [u, p] rfl

/-- **A line is run as documented exactly when it is plain.** -/
theorem followsGrammar_iff (line : Bytes) : FollowsGrammar line ↔ Plain line := by
  have hregister : (∀ u p, readCommand line = .registerWithServer u p ↔ [lit "REGISTER", u, p] <+: words line) ↔
      (2 < (words line).length → (lit "REGISTER" <+: line ↔ (words line).head? = some (lit "REGISTER"))) := by
    simp only [readCommand_register]
    exact dispatch_two
  have hlogin : (∀ u p, readCommand line = .loginToServer u p ↔ [lit "LOGIN", u, p] <+: words line) ↔
      (2 < (words line).length → (lit "LOGIN" <+: line ↔ (words line).head? = some (lit "LOGIN"))) := by
    simp only [readCommand_login]
    exact dispatch_two
  have hlogout : (readCommand line = .logoutFromServer ↔ [lit "LOGOUT"] <+: words line) ↔
      (0 < (words line).length → (lit "LOGOUT" <+: line ↔ (words line).head? = some (lit "LOGOUT"))) := by
    rw [← dispatch_iff, readCommand_logout]
    simp only [List.length_eq_zero_iff, forall_eq]
  have hchat : (∀ u, readCommand line = .chatWithClient u ↔ [lit "CHAT", u] <+: words line) ↔
      (1 < (words line).length → (lit "CHAT" <+: line ↔ (words line).head? = some (lit "CHAT"))) := by
    simp only [readCommand_chat]
    exact dispatch_one
  simp only [Plain, keywords, List.forall_mem_cons]
  rw [← hregister, ← hlogin, ← hlogout, ← hchat]
  constructor
  · intro h
    exact ⟨h.register, h.login, h.logout, h.chat, nofun⟩
  · rintro ⟨h1, h2, h3, h4, -⟩
    refine ⟨h1, h2, h3, h4, fun n1 n2 n3 n4 => ?_⟩
    cases hc : readCommand line with
    | registerWithServer u p => exact absurd ((h1 u p).1 hc) (n1 u p)
    | loginToServer u p => exact absurd ((h2 u p).1 hc) (n2 u p)
    | logoutFromServer => exact absurd (h3.1 hc) n3
    | chatWithClient u => exact absurd ((h4 u).1 hc) (n4 u)
    | _ => simp

/-- A name glued to the keyword: the password is registered as a name. -/
theorem glued_register :
    readCommand (lit "REGISTERalice secret1 secret2") = .registerWithServer (lit "secret1") (lit "secret2") ∧
      ¬ FollowsGrammar (lit "REGISTERalice secret1 secret2") := by
  have hrun : readCommand (lit "REGISTERalice secret1 secret2") =
      .registerWithServer (lit "secret1") (lit "secret2") := by decide
  exact ⟨hrun, fun h => absurd ((h.register _ _).1 hrun) (by decide)⟩

end ChatRoom
