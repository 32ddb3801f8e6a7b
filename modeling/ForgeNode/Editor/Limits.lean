/-! Byte and count budgets of the editing engine. -/

namespace ForgeNode.Editor

/-- Largest document the editor opens or keeps, in bytes. -/
def maxDocumentBytes : Nat := 2 * 1024 * 1024

/-- Undo and redo text retained for one document. -/
def maxHistoryBytes : Nat := 4 * 1024 * 1024

/-- Undo entries retained for one document, whatever their size. -/
def maxHistoryEntries : Nat := 4096

/-- Matches one replace-all may rewrite. -/
def maxReplaceMatches : Nat := 200000

/-- Longest find pattern. -/
def maxPatternBytes : Nat := 1024

/-- Most carets one buffer may have at once. -/
def maxCursors : Nat := 64

end ForgeNode.Editor
