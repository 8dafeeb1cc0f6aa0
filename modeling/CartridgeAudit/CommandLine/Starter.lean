/-
CartridgeAudit/CommandLine/Starter.lean

The configuration file that the program writes to start with.
-/

namespace CartridgeAudit.CommandLine

/-- The lines of the configuration. -/
def starterLines : List String :=
  ["# cartridge-lint configuration",
   "",
   "# preset = \"recommended\"   # recommended, strict or minimal",
   "# fail_on = \"error\"        # error, warning or info",
   "",
   "[project]",
   "# Root of the cartridge repository (default: current directory)",
   "# root = \".\"",
   "",
   "# Released cartridge version, YY.N.N",
   "cartridge_version = \"26.1.0\"",
   "",
   "# Versions the cartridge claims to support",
   "platform_version = \"21.2\"",
   "compatibility_mode = \"19.10\"",
   "sfra_version = \"5.3.0\"",
   "sitegen_version = \"105.0.0\"",
   "",
   "# Leave *changes cartridges out of the scan",
   "exclude_changes_cartridges = true",
   "",
   "[analyzer]",
   "# File or directory names (or * patterns) to skip",
   "exclude = [\"static\"]",
   "",
   "# Rule configurations",
   "# Each rule can be enabled/disabled and have its severity overridden",
   "",
   "[rules.no-px-sizes]",
   "enabled = true",
   "# severity = \"error\"",
   "max_px = 5",
   "",
   "[rules.job-metadata]",
   "site_id = \"RefArch\"",
   "",
   "# [rules.guide-availability]",
   "# min_length = 100"]

/-- The configuration. -/
def starterConfig : String := String.join (starterLines.map (· ++ "\n"))

end CartridgeAudit.CommandLine
