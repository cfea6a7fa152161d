import ChatRoom.Bytes
/-!
# CommandLine — the commands of `client.cpp`

`main` tells the command by the characters the line starts with, and reads the words after it with `>>`.  The names and
passwords it passes on are words (`words_of_readCommand`).
-/
namespace ChatRoom

/-- What `main` does with a line. -/
inductive Command
  | registerWithServer (username password : Bytes)
  | loginToServer (username password : Bytes)
  | logoutFromServer
  | chatWithClient (username : Bytes)
  | exit
  | usage -- a word is missing
  | unknown
  deriving DecidableEq, Repr

def readCommand (command : Bytes) : Command :=
  if lit "REGISTER" <+: command then
    let (_, iss) := extract command
    let (username, iss) := extract iss
    let (password, _) := extract iss
    if username = [] ∨ password = [] then .usage else .registerWithServer username password
  else if lit "LOGIN" <+: command then
    let (_, iss) := extract command
    let (username, iss) := extract iss
    let (password, _) := extract iss
    if username = [] ∨ password = [] then .usage else .loginToServer username password
  else if lit "LOGOUT" <+: command then .logoutFromServer
  else if lit "CHAT" <+: command then
    let (_, iss) := extract command
    let (username, _) := extract iss
    if username = [] then .usage else .chatWithClient username
  else if command = lit "EXIT" then .exit
  else .unknown

def Command.strings : Command → List Bytes
  | .registerWithServer username password => [username, password]
  | .loginToServer username password => [username, password]
  | .chatWithClient username => [username]
  | _ => []

theorem isWord_extract {iss : Bytes} (h : (extract iss).1 ≠ []) : Scan.IsWord isspace (extract iss).1 :=
  Scan.isWord_word isspace h

/-- **A string that is passed on is a word.** -/
theorem words_of_readCommand (command : Bytes) : ∀ w ∈ (readCommand command).strings, Scan.IsWord isspace w := by
  unfold readCommand
  split
  · dsimp only
    split
    · exact nofun
    · rename_i hne
      rw [not_or] at hne
      simp only [Command.strings, List.forall_mem_cons]
      exact ⟨isWord_extract hne.1, isWord_extract hne.2, nofun⟩
  split
  · dsimp only
    split
    · exact nofun
    · rename_i hne
      rw [not_or] at hne
      simp only [Command.strings, List.forall_mem_cons]
      exact ⟨isWord_extract hne.1, isWord_extract hne.2, nofun⟩
  split
  · exact nofun
  split
  · dsimp only
    split
    · exact nofun
    · rename_i hne
      simp only [Command.strings, List.forall_mem_cons]
      exact ⟨isWord_extract hne, nofun⟩
  split <;> exact nofun

end ChatRoom
