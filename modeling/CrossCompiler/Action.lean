import CrossCompiler.FileTree
import CrossCompiler.Log.Basic

/-!
# Actions

A program's work on the outside world, as a function: it takes the files and the state of
the tools, and gives a value, the files and the state it leaves, and the entries it adds
to the log.  Actions are put in sequence; the log of a sequence is the logs one after the
other, so nothing that was reported is ever taken back.
-/

namespace CrossCompiler

/-- What an action leaves. -/
structure Step (σ α : Type) where
  value : α
  files : FileTree
  tools : σ
  log : List Log.Entry

/-- An action on files and on tools whose state is `σ`. -/
def Action (σ α : Type) : Type := FileTree → σ → Step σ α

namespace Action

variable {σ α β : Type}

/-- Changes nothing and reports nothing. -/
protected def pure (a : α) : Action σ α := fun files tools => ⟨a, files, tools, []⟩

/-- One action after another. -/
protected def bind (first : Action σ α) (next : α → Action σ β) : Action σ β :=
  fun files tools =>
    let a := first files tools
    let b := next a.value a.files a.tools
    ⟨b.value, b.files, b.tools, a.log ++ b.log⟩

instance : Monad (Action σ) where
  pure := Action.pure
  bind := Action.bind

/-- Reports an entry. -/
def report (e : Log.Entry) : Action σ Unit := fun files tools => ⟨(), files, tools, [e]⟩

/-- Reports entries in order. -/
def reportAll (es : List Log.Entry) : Action σ Unit := fun files tools => ⟨(), files, tools, es⟩

/-- Looks at the files. -/
def inspect (f : FileTree → α) : Action σ α := fun files tools => ⟨f files, files, tools, []⟩

/-- Replaces the files. -/
def replaceFiles (files : FileTree) : Action σ Unit := fun _ tools => ⟨(), files, tools, []⟩

/-- Works on the state of the tools alone. -/
def onTools (f : σ → α × σ) : Action σ α :=
  fun files tools => ⟨(f tools).1, files, (f tools).2, []⟩

end Action
end CrossCompiler
