import ArmaScript.Signature.Catalogue.Row

/-!
# Commands without operands

The commands that are written alone, by the kind of their result.
-/

namespace ArmaScript.Catalogue

def nullaries : List Signature := List.flatten [
  alone .number [
    "acctime", "armorypoints", "benchmark", "clientowner", "currentchannel", "daytime", "diag_fps",
    "diag_fpsmin", "diag_frameno", "diag_ticktime", "difficulty", "distributionregion",
    "estimatedendservertime", "fog", "fogforecast", "getclientstatenumber", "getelevationoffset",
    "getshadowdistance", "getterraingrid", "gettotaldlcusagetime", "gusts", "humidity",
    "lightnings", "missiondifficulty", "missionversion", "moonintensity", "musicvolume",
    "nextweatherchange", "overcast", "overcastforecast", "particlesquality", "pi", "pixelgrid",
    "pixelgridbase", "pixelgridnouiscale", "pixelh", "pixelw", "playerrespawntime", "radiovolume",
    "rain", "rainbow", "remoteexecutedowner", "safezoneh", "safezonew", "safezonewabs",
    "safezonex", "safezonexabs", "safezoney", "servertime", "shownscoretable", "soundvolume",
    "sunormoon", "systemofunits", "time", "timemultiplier", "viewdistance", "waves", "winddir",
    "windstr", "worldsize"],
  alone .boolean [
    "buldozer_isenabledroaddiag", "cadetmode", "cansuspend", "cheatsenabled", "dialog", "didjip",
    "difficultyenabledrtd", "dynamicsimulationsystemenabled", "false", "freelook",
    "getremotesensorsdisabled", "groupiconselectable", "hasinterface", "hcshownbar", "is3den",
    "is3denmultiplayer", "isautotest", "isdedicated", "isfilepatchingenabled",
    "isinstructorfigureenabled", "ismultiplayer", "ismultiplayersolo", "ispipenabled",
    "isremoteexecuted", "isremoteexecutedjip", "isserver", "issteammission",
    "isstreamfriendlyuienabled", "isstressdamageenabled", "istuthintsenabled", "isuicontext",
    "mapanimdone", "markasfinishedonsteam", "reversedmousey", "savingenabled",
    "shownartillerycomputer", "shownchat", "showncompass", "showncuratorcompass", "showngps",
    "shownmap", "shownpad", "shownradio", "shownuavfeed", "shownwarrant", "shownwatch",
    "slingloadassistantshown", "teamswitchenabled", "true", "userinputdisabled", "visiblecompass",
    "visiblegps", "visiblemap", "visiblescoretable", "visiblewatch"],
  alone .array [
    "activatedaddons", "agents", "airdensitycurvertd", "all3denentities", "allairports",
    "allcurators", "allcutlayers", "alldead", "alldeadmen", "alldisplays", "allgroups",
    "allmapmarkers", "allmines", "allplayers", "allsites", "allunits", "allunitsuav",
    "curatorselected", "date", "diag_activemissionfsms", "diag_activescripts",
    "diag_activesqfscripts", "diag_activesqsscripts", "environmentenabled", "fogparams",
    "forcedmap", "get3deniconsvisible", "get3denlinesvisible", "get3denmouseover",
    "getartillerycomputersettings", "getcursorobjectparams", "getdlcassetsusage", "getmissiondlcs",
    "getmissionlayers", "getmouseposition", "getobjectviewdistance", "getresolution",
    "groupiconsvisible", "hudmovementlevels", "librarycredits", "librarydisclaimers",
    "missionstart", "playableunits", "productversion", "shownhud", "switchableunits", "teams",
    "vehicles", "wind", "windrtd"],
  alone .nothing [
    "buldozer_reloadopermap", "clearforcesrtd", "clearitempool", "clearmagazinepool", "clearradio",
    "clearweaponpool", "disabledebriefingstats", "disableserialization", "enableenddialog",
    "endloadingscreen", "exit", "finishmissioninit", "forceend", "forceweatherchange", "halt",
    "initambientlife", "loadgame", "logentities", "mapanimclear", "mapanimcommit",
    "opencuratorinterface", "resetcamshake", "runinitscript", "savegame", "savejoysticks",
    "saveprofilenamespace", "selectnoplayer", "simulweathersync", "teamswitch"],
  alone .side [
    "blufor", "civilian", "east", "independent", "opfor", "playerside", "resistance",
    "sideambientlife", "sideempty", "sideenemy", "sidefriendly", "sidelogic", "sideunknown",
    "west"],
  alone .string [
    "briefingname", "cameraview", "commandingmenu", "copyfromclipboard", "current3denoperation",
    "endl", "getclientstate", "language", "linebreak", "missionname", "profilename",
    "profilenamesteam", "servername", "worldname"],
  alone .object [
    "cameraon", "curatorcamera", "curatormouseover", "cursorobject", "cursortarget",
    "get3dencamera", "objnull", "player"],
  alone .nspace [
    "currentnamespace", "missionnamespace", "parsingnamespace", "profilenamespace", "uinamespace"],
  alone .config ["campaignconfigfile", "configfile", "confignull", "missionconfigfile"],
  alone .control ["controlnull"],
  alone .display ["displaynull"],
  alone .group ["grpnull"],
  alone .location ["locationnull"],
  alone .netObject ["netobjnull"],
  alone .anything ["nil"],
  alone .script ["scriptnull"],
  alone .task ["tasknull"],
  alone .teamMember ["teammembernull"]]

end ArmaScript.Catalogue
