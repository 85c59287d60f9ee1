import Slang.Command
/-!
# Help

What a command says about itself: what it does, how it is called, the commands below it and its flags.
-/

namespace Slang.Command

/-- What a command does, in a line. -/
def short : Command → Text
  | root => "slangc: front end for the slang language"
  | check => "Parse and analyze slang source files"
  | symbols => "Print the symbol table of a slang source file"
  | init => "Scaffold a new slang project (slangc.yaml and main.sl)"
  | version => "Print the slangc version"
  | help => "Help about any command"
  | completion => "Generate the autocompletion script for the specified shell"
  | script shell => "Generate the autocompletion script for " ++ shell.name
  | complete _ => "Request shell completion choices for the specified command-line"

/-- How to load completions in a shell. -/
def scriptUse : Shell → Text
  | .bash => "Generate the autocompletion script for the bash shell.

This script depends on the 'bash-completion' package.
If it is not installed already, you can install it via your OS's package manager.

To load completions in your current shell session:

\tsource <(slangc completion bash)

To load completions for every new session, execute once:

#### Linux:

\tslangc completion bash > /etc/bash_completion.d/slangc

#### macOS:

\tslangc completion bash > $(brew --prefix)/etc/bash_completion.d/slangc

You will need to start a new shell for this setup to take effect."
  | .fish => "Generate the autocompletion script for the fish shell.

To load completions in your current shell session:

\tslangc completion fish | source

To load completions for every new session, execute once:

\tslangc completion fish > ~/.config/fish/completions/slangc.fish

You will need to start a new shell for this setup to take effect."
  | .powershell => "Generate the autocompletion script for powershell.

To load completions in your current shell session:

\tslangc completion powershell | Out-String | Invoke-Expression

To load completions for every new session, add the output of the above command
to your powershell profile."
  | .zsh => "Generate the autocompletion script for the zsh shell.

If shell completion is not already enabled in your environment you will need
to enable it.  You can execute the following once:

\techo \"autoload -U compinit; compinit\" >> ~/.zshrc

To load completions in your current shell session:

\tsource <(slangc completion zsh)

To load completions for every new session, execute once:

#### Linux:

\tslangc completion zsh > \"$\x7bfpath[1]\x7d/_slangc\"

#### macOS:

\tslangc completion zsh > $(brew --prefix)/share/zsh/site-functions/_slangc

You will need to start a new shell for this setup to take effect."

/-- What a command does, in full. -/
def long : Command → Text
  | root => "slangc parses and analyzes slang (.sl) source files and reports their
symbol tables.

Commands:
  check    Parse and analyze source files, printing diagnostics
  symbols  Print the symbol table of a source file
  init     Scaffold a new slang project
  version  Print the slangc version"
  | help => "Help provides help for any command in the application.
Simply type slangc help [path to command] for full details."
  | completion => "Generate the autocompletion script for slangc for the specified shell.
See each sub-command's help for details on how to use the generated script."
  | script shell => scriptUse shell
  | c => c.short

/-- How a command is called. -/
def useLine : Command → Text
  | check => "slangc check FILE... [flags]"
  | symbols => "slangc symbols FILE [flags]"
  | init => "slangc init [dir] [flags]"
  | version => "slangc version [flags]"
  | help => "slangc help [command] [flags]"
  | complete described => "slangc " ++ (complete described).name ++ " [command-line]"
  | c => c.path

/-- The width of the names of commands in a list. -/
def nameWidth : Nat := 11

/-- The lines that list commands. -/
def listing (cs : List Command) : Text :=
  cs.flatMap fun c =>
    Text.ofString "  " ++ c.name ++ Text.fill (nameWidth - c.name.length) 32 ++ " " ++ c.short ++ "\n"

/-- The flags that only a command and those below it have, by name. The flag that asks for help may not be
there yet. -/
def localFlags (c : Command) (withHelp : Bool) : List Flag :=
  let own := if withHelp then c.helpFlag :: c.ownFlags else c.ownFlags
  byName (if c = root then own ++ sharedFlags else own)

/-- The flags that a command has from the root. -/
def inheritedFlags (c : Command) : List Flag := if c = root then [] else sharedFlags

/-- A part of the usage under its title, unless it is empty. -/
def part (title body : Text) : Text := if body = [] then [] else "\n" ++ title ++ ":\n" ++ body

/-- How to use a command. -/
def usage (c : Command) (withHelp : Bool) : Text :=
  let calls : Text := if c.isRunnable then "  " ++ c.useLine ++ "\n" else []
  let below : Text := if c.listed.isEmpty then [] else "  " ++ c.path ++ " [command]\n"
  let more : Text :=
    if c.listed.isEmpty then []
    else "\nUse \"" ++ c.path ++ " [command] --help\" for more information about a command.\n"
  "Usage:\n" ++ calls ++ below ++ part "Available Commands" (listing c.listed)
    ++ part "Flags" (Flag.usages (c.localFlags withHelp))
    ++ part "Global Flags" (Flag.usages c.inheritedFlags) ++ more

/-- The help of a command. -/
def helpText (c : Command) : Text := c.long ++ "\n\n" ++ c.usage true

end Slang.Command
