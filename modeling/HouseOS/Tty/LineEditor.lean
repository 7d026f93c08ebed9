import HouseOS.Tty.Reader

namespace HouseOS.Tty

inductive EditKey where
  | char (c : UInt8)
  | erase
  | left
  | right
  | home
  | fin
  | up
  | down
  | enter
  | interrupt
  | eof
  | other
  deriving DecidableEq, Repr

inductive Ending where
  | entered (line : Line)
  | full (line : Line)
  | eof
  | interrupted
  deriving DecidableEq, Repr

def Ending.bytes : Ending → Line
  | .entered line => line ++ [10]
  | .full line => line
  | .eof => []
  | .interrupted => []

def Ending.result (ending : Ending) : Int :=
  if ending = .interrupted then -1 else ending.bytes.length

-- the line is what stands in front of the cursor and what stands behind it
structure Editor where
  before : Line
  after : Line
  historyPos : Option Nat
  saved : Line × Line
  history : History
  ending : Option Ending
  deriving DecidableEq, Repr

namespace Editor

variable (e : Editor)

def line : Line := e.before ++ e.after

def cursor : Nat := e.before.length

def opened (history : History) : Editor := ⟨[], [], none, ([], []), history, none⟩

def setLine (before after : Line) : Editor := { e with before := before, after := after }

def showLine (cap pos : Nat) (entry : Line) : Editor :=
  { e with before := entry.take cap, after := [], historyPos := some pos }

def older (cap : Nat) : Editor :=
  match e.history.getD [], e.historyPos with
  | [], _ => e
  | latest :: _, none => { e with saved := (e.before, e.after) }.showLine cap 0 latest
  | lines, some pos =>
      let pos := if pos + 1 < lines.length then pos + 1 else pos
      e.showLine cap pos (lines.getD pos [])

def newer (cap : Nat) : Editor :=
  match e.historyPos with
  | none => e
  | some 0 => { e with before := e.saved.1, after := e.saved.2, historyPos := none }
  | some (pos + 1) => e.showLine cap pos ((e.history.getD []).getD pos [])

def press (cap : Nat) : EditKey → Editor
  | .char c => e.setLine (e.before ++ [c]) e.after
  | .erase => e.setLine e.before.dropLast e.after
  | .left => e.setLine e.before.dropLast (e.before.getLast?.toList ++ e.after)
  | .right => e.setLine (e.before ++ e.after.take 1) (e.after.drop 1)
  | .home => e.setLine [] e.line
  | .fin => e.setLine e.line []
  | .up => e.older cap
  | .down => e.newer cap
  | .enter =>
      { e with
        history := Tty.historyStore e.history e.line
        ending := some (.entered e.line) }
  | .interrupt => { e with ending := some .interrupted }
  | .eof => { e with ending := some .eof }
  | .other => e

def fill (cap : Nat) : Editor :=
  if e.ending = none ∧ cap ≤ e.line.length then { e with ending := some (.full e.line) } else e

def step (cap : Nat) (e : Editor) (k : EditKey) : Editor :=
  if e.ending = none then (e.press cap k).fill cap else e

def run (cap : Nat) (keys : List EditKey) : Editor := keys.foldl (step cap) e

variable {e : Editor} {cap : Nat} {history : History}

def Stores (history : History) (e : Editor) : Prop :=
  e.history = match e.ending with
    | some (.entered line) => historyStore history line
    | _ => history

theorem stores_of_none (hending : e.ending = none) (h : e.history = history) : Stores history e := by
  rw [Stores, hending]
  exact h

theorem left_line (e : Editor) :
    e.before.dropLast ++ (e.before.getLast?.toList ++ e.after) = e.before ++ e.after := by
  rw [← List.append_assoc]
  congr 1
  rcases List.eq_nil_or_concat e.before with hnil | ⟨l, c, hlast⟩
  · rw [hnil]
    rfl
  · rw [hlast, List.concat_eq_append, List.dropLast_concat, List.getLast?_concat]
    rfl

theorem older_kept : (e.older cap).history = e.history ∧ (e.older cap).ending = e.ending := by
  rw [older]
  split <;> exact ⟨rfl, rfl⟩

theorem newer_kept : (e.newer cap).history = e.history ∧ (e.newer cap).ending = e.ending := by
  rw [newer]
  split <;> exact ⟨rfl, rfl⟩

theorem stores_press (hending : e.ending = none) (h : e.history = history) (k : EditKey) :
    Stores history (e.press cap k) := by
  cases k with
  | up => exact stores_of_none (older_kept.2.trans hending) (older_kept.1.trans h)
  | down => exact stores_of_none (newer_kept.2.trans hending) (newer_kept.1.trans h)
  | enter =>
    show historyStore e.history e.line = historyStore history e.line
    rw [h]
  | interrupt => exact h
  | eof => exact h
  | char c => exact stores_of_none hending h
  | erase => exact stores_of_none hending h
  | left => exact stores_of_none hending h
  | right => exact stores_of_none hending h
  | home => exact stores_of_none hending h
  | fin => exact stores_of_none hending h
  | other => exact stores_of_none hending h

theorem stores_fill (h : Stores history e) : Stores history (e.fill cap) := by
  rw [fill]
  split
  case isTrue hfull =>
    rw [Stores, hfull.1] at h
    exact h
  case isFalse => exact h

theorem stores_step (h : Stores history e) (k : EditKey) : Stores history (step cap e k) := by
  rw [step]
  split
  case isTrue hending =>
    rw [Stores, hending] at h
    exact stores_fill (stores_press hending h k)
  case isFalse => exact h

theorem stores_run (cap : Nat) (h : Stores history e) (keys : List EditKey) : Stores history (e.run cap keys) := by
  induction keys generalizing e with
  | nil => exact h
  | cons k keys ih => exact ih (stores_step h k)

theorem historyStore_nil (history : History) : historyStore history [] = history := by
  cases history with
  | none => rfl
  | some lines => rfl

theorem Stores.kept (h : Stores history e)
    (hnone : ∀ line, e.ending = some (.entered line) → line = []) : e.history = history := by
  rw [Stores] at h
  rw [h]
  split
  case h_1 line hline =>
    rw [hnone line hline]
    exact historyStore_nil history
  case h_2 => rfl

end Editor

end HouseOS.Tty
